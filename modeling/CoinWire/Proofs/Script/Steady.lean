import CoinWire.Proofs.Script.Templates

/-!
Decoders on longer data. What a decoder does without asking for bytes that are not there it also does when
more bytes stand behind: it succeeds in the same way, or fails for the same reason. A shortage stays the
same shortage until the bytes it asks for are there. Each step of a template has this property, and it
passes through sequences and through the loop over keys.
-/

namespace CoinWire.Script

def Failure.isEnd : Failure → Bool
  | unexpectedEnd .. => true
  | _ => false

namespace Cursor

def extend (c : Cursor) (more : Bytes) : Cursor := ⟨c.past, c.unread ++ more⟩

@[simp] theorem extend_nil (c : Cursor) : c.extend [] = c := by
  simp only [extend, List.append_nil]

theorem remaining_extend (c : Cursor) (more : Bytes) :
    (c.extend more).remaining = c.remaining + more.length :=
  List.length_append

variable {c d : Cursor} {bytes : Bytes}

theorem Moves.extend (h : c.Moves bytes d) (more : Bytes) :
    (c.extend more).Moves bytes (d.extend more) := by
  obtain ⟨hu, hp⟩ := h
  refine ⟨?_, hp⟩
  simp only [Cursor.extend, hu, List.append_assoc]

end Cursor

namespace Progress

def extend (p : Progress) (more : Bytes) : Progress := ⟨p.cursor.extend more, p.asm⟩

@[simp] theorem extend_nil (p : Progress) : p.extend [] = p := by
  rw [extend, Cursor.extend_nil]

theorem extend_append (p : Progress) (more rest : Bytes) :
    (p.extend more).extend rest = p.extend (more ++ rest) := by
  simp only [extend, Cursor.extend, List.append_assoc]

def shown (p : Progress) (token : String) : Progress := ⟨p.cursor, ⟨p.asm.tokens ++ [token]⟩⟩

end Progress

namespace Decoder

variable {α β : Type}

/-- What `decoder` does at `p` says what it does there when more bytes stand behind. -/
structure Steady (decoder : Decoder α) (p : Progress) : Prop where
  ok {a q} : decoder p = .ok a q → q.cursor.data = p.cursor.data ∧
    ∀ more, decoder (p.extend more) = .ok a (q.extend more)
  settled {e q} : decoder p = .error e q → e.isEnd = false →
    ∀ more, decoder (p.extend more) = .error e (q.extend more)
  short {e q} : decoder p = .error e q → e.isEnd = true → q.cursor.data = p.cursor.data ∧
    ∃ needed, e = q.cursor.short needed ∧ (q.cursor.remaining : Int) < needed ∧
      ∀ more, ((q.cursor.extend more).remaining : Int) < needed →
        decoder (p.extend more) = .error ((q.cursor.extend more).short needed) (q.extend more)

section Steady

variable {decoder : Decoder α} {p : Progress}

theorem Steady.bind (h : Steady decoder p) {next : α → Decoder β}
    (hn : ∀ a q, decoder p = .ok a q → Steady (next a) q) : Steady (decoder >>= next) p := by
  constructor
  · intro b q hr
    obtain ⟨a, m, ha, hb⟩ := run_bind_eq_ok_iff.1 hr
    obtain ⟨hm, hextend⟩ := h.ok ha
    obtain ⟨hq, hextend'⟩ := (hn a m ha).ok hb
    refine ⟨hq.trans hm, fun more => run_bind_eq_ok_iff.2 ?_⟩
    exact ⟨a, m.extend more, hextend more, hextend' more⟩
  · intro e q hr he more
    apply run_bind_eq_error_iff.2
    rcases run_bind_eq_error_iff.1 hr with hr | ⟨a, m, ha, hr⟩
    · left
      exact h.settled hr he more
    · right
      exact ⟨a, m.extend more, (h.ok ha).2 more, (hn a m ha).settled hr he more⟩
  · intro e q hr he
    rcases run_bind_eq_error_iff.1 hr with hr | ⟨a, m, ha, hr⟩
    · obtain ⟨hq, needed, rfl, hlt, hextend⟩ := h.short hr he
      refine ⟨hq, needed, rfl, hlt, fun more hmore => run_bind_eq_error_iff.2 ?_⟩
      left
      exact hextend more hmore
    · obtain ⟨hm, hextend⟩ := h.ok ha
      obtain ⟨hq, needed, rfl, hlt, hextend'⟩ := (hn a m ha).short hr he
      refine ⟨hq.trans hm, needed, rfl, hlt, fun more hmore => run_bind_eq_error_iff.2 ?_⟩
      right
      exact ⟨a, m.extend more, hextend more, hextend' more hmore⟩

theorem steady_of_ok {a : α} {q : Progress} (hd : q.cursor.data = p.cursor.data)
    (h : ∀ more, decoder (p.extend more) = .ok a (q.extend more)) : Steady decoder p := by
  have hp := h []
  rw [Progress.extend_nil, Progress.extend_nil] at hp
  constructor
  · intro b m hb
    obtain ⟨rfl, rfl⟩ := EStateM.Result.ok.inj (hp.symm.trans hb)
    exact ⟨hd, h⟩
  · intro e m he
    cases hp.symm.trans he
  · intro e m he
    cases hp.symm.trans he

theorem steady_of_settled {e : Failure} (he : e.isEnd = false)
    (h : ∀ more, decoder (p.extend more) = .error e (p.extend more)) : Steady decoder p := by
  have hp := h []
  rw [Progress.extend_nil] at hp
  constructor
  · intro a q ha
    cases hp.symm.trans ha
  · intro e' q he'
    obtain ⟨rfl, rfl⟩ := EStateM.Result.error.inj (hp.symm.trans he')
    exact fun _ => h
  · intro e' q he' hend
    obtain ⟨rfl, rfl⟩ := EStateM.Result.error.inj (hp.symm.trans he')
    rw [he] at hend
    cases hend

theorem steady_of_short {needed : Int} (hn : (p.cursor.remaining : Int) < needed)
    (h : ∀ more, ((p.cursor.extend more).remaining : Int) < needed →
      decoder (p.extend more) = .error ((p.cursor.extend more).short needed) (p.extend more)) :
    Steady decoder p := by
  have hp := h []
  rw [Progress.extend_nil, Cursor.extend_nil] at hp
  constructor
  · intro a q ha
    cases (hp hn).symm.trans ha
  · intro e q he hend
    obtain ⟨rfl, rfl⟩ := EStateM.Result.error.inj ((hp hn).symm.trans he)
    cases hend
  · intro e q he _
    obtain ⟨rfl, rfl⟩ := EStateM.Result.error.inj ((hp hn).symm.trans he)
    exact ⟨rfl, needed, rfl, hn, h⟩

theorem steady_pure (a : α) (p : Progress) : Steady (pure a) p :=
  steady_of_ok rfl fun _ => rfl

theorem steady_throw {e : Failure} (he : e.isEnd = false) (p : Progress) :
    Steady (throw e : Decoder α) p :=
  steady_of_settled he fun _ => rfl

theorem steady_demand {result : Except Failure α} (he : ∀ e, result = .error e → e.isEnd = false)
    (p : Progress) : Steady (demand result) p := by
  cases result with
  | error e => exact steady_throw (he e rfl) p
  | ok a => exact steady_pure a p

theorem emit_of_error [DigitLimit] {op : Opcode} {e : Failure} (hm : op.mnemonic = .error e) :
    emit op = throw e := by
  funext p
  simp only [emit, Asm.opcode, hm]
  rfl

theorem emit_of_ok [DigitLimit] {op : Opcode} {name : String} (hm : op.mnemonic = .ok name) (p : Progress) :
    emit op p = .ok () (p.shown name) := by
  simp only [emit, Asm.opcode, hm]
  rfl

theorem isEnd_of_mnemonic {op : Opcode} {e : Failure} (hm : op.mnemonic = .error e) :
    e.isEnd = false := by
  obtain ⟨-, rfl⟩ | ⟨n, -, rfl⟩ := Opcode.mnemonic_eq_error_iff.1 hm
  · rfl
  · rfl

theorem steady_emit (op : Opcode) (p : Progress) : Steady (emit op) p := by
  cases hm : op.mnemonic with
  | ok name => exact steady_of_ok (q := p.shown name) rfl fun more => emit_of_ok hm (p.extend more)
  | error e =>
    rw [emit_of_error hm]
    exact steady_throw (isEnd_of_mnemonic hm) p

theorem steady_emitBytes (data : Bytes) (p : Progress) : Steady (emitBytes data) p :=
  steady_of_ok (q := p.shown (Hex.encode data)) rfl fun _ => rfl

section OfCursor

variable {read : Cursor → Except Failure (α × Cursor)}

theorem ofCursor_of_ok {a : α} {d : Cursor} (h : read p.cursor = .ok (a, d)) :
    ofCursor read p = .ok a ⟨d, p.asm⟩ := by
  simp only [ofCursor, h]

theorem ofCursor_of_error {e : Failure} (h : read p.cursor = .error e) :
    ofCursor read p = .error e p := by
  simp only [ofCursor, h]

/-- A read of the cursor either moves it, or fails for a reason of its own, or finds too few bytes. -/
theorem steady_ofCursor
    (hok : ∀ a d, read p.cursor = .ok (a, d) → d.data = p.cursor.data ∧
      ∀ more, read (p.cursor.extend more) = .ok (a, d.extend more))
    (herror : ∀ e, read p.cursor = .error e →
      (e.isEnd = false ∧ ∀ more, read (p.cursor.extend more) = .error e) ∨
      ∃ needed, (p.cursor.remaining : Int) < needed ∧
        ∀ more, ((p.cursor.extend more).remaining : Int) < needed →
          read (p.cursor.extend more) = .error ((p.cursor.extend more).short needed)) :
    Steady (ofCursor read) p := by
  cases hr : read p.cursor with
  | ok r =>
    obtain ⟨a, d⟩ := r
    obtain ⟨hd, hextend⟩ := hok a d hr
    exact steady_of_ok (q := ⟨d, p.asm⟩) hd fun more => ofCursor_of_ok (hextend more)
  | error e =>
    rcases herror e hr with ⟨he, hextend⟩ | ⟨needed, hn, hextend⟩
    · exact steady_of_settled he fun more => ofCursor_of_error (hextend more)
    · exact steady_of_short hn fun more hmore => ofCursor_of_error (hextend more hmore)

end OfCursor

theorem steady_next (p : Progress) : Steady (ofCursor Cursor.next) p := by
  refine steady_ofCursor (fun b d h => ?_) (fun e h => .inr ⟨1, ?_⟩)
  · have hm := Cursor.next_eq_ok_iff.1 h
    exact ⟨hm.data_eq, fun more => Cursor.next_eq_ok_iff.2 (hm.extend more)⟩
  · obtain ⟨⟨past, unread⟩, asm⟩ := p
    cases unread with
    | cons b rest => cases h
    | nil =>
      refine ⟨Int.one_pos, fun more hmore => ?_⟩
      obtain rfl : more = [] := by
        rw [Cursor.remaining_extend] at hmore
        exact List.length_eq_zero_iff.1 (by omega)
      rfl

theorem steady_bytes {n : Int} (hw : Decimal.Writable n) (p : Progress) : Steady (bytes n) p := by
  refine steady_ofCursor (fun data d h => ?_) (fun e h => ?_)
  · obtain ⟨hl, hm⟩ := Cursor.read_eq_ok_iff.1 h
    exact ⟨hm.data_eq, fun more => Cursor.read_eq_ok_iff.2 ⟨hl, hm.extend more⟩⟩
  · simp only [Cursor.read, Cursor.peek] at h ⊢
    by_cases hn : n < 0
    · rw [if_pos hn] at h
      left
      obtain rfl := Except.error.inj h
      refine ⟨rfl, fun more => ?_⟩
      rw [if_pos hn]
      rfl
    · by_cases hs : (p.cursor.remaining : Int) < n
      · right
        refine ⟨n, hs, fun more hmore => ?_⟩
        rw [if_neg hn, if_pos hmore, if_pos hw]
        rfl
      · rw [if_neg hn, if_neg hs] at h
        cases h

theorem steady_opcode (p : Progress) : Steady opcode p :=
  (steady_next p).bind fun b q _ => steady_pure (b, Opcode.ofByte b) q

theorem steady_payload {n : Int} (hw : Decimal.Writable n) (p : Progress) :
    Steady (payload n) p :=
  (steady_bytes hw p).bind fun data q _ => (steady_emitBytes data q).bind fun _ r _ =>
    steady_pure data r

theorem Steady.discard (h : Steady decoder p) : Steady (discard decoder) p := by
  rw [discard_eq_bind]
  exact h.bind fun _ q _ => steady_pure () q

theorem steady_mnemonic (op : Opcode) (p : Progress) : Steady (demand op.mnemonic) p :=
  steady_demand (fun _ => isEnd_of_mnemonic) p

theorem steady_expect (op : Opcode) (p : Progress) : Steady (expect op) p := by
  refine (steady_opcode p).bind fun r q _ => ?_
  by_cases hr : r.2 = op
  · simp only [if_pos hr]
    exact steady_emit r.2 q
  · simp only [if_neg hr]
    exact (steady_mnemonic op q).bind fun name m _ => steady_throw rfl m

theorem steady_push (n : Int) (p : Progress) : Steady (push n) p := by
  have hpush (e : Failure) (he : Opcode.push n = .error e) : e.isEnd = false := by
    rw [Opcode.push] at he
    split at he
    · cases he
    · obtain rfl := Except.error.inj he
      rfl
  refine (steady_demand hpush p).bind fun op q hop => (steady_expect op q).bind fun _ m _ => ?_
  -- a length that was not refused has two digits at most
  obtain ⟨_, _, ⟨hop, -, -⟩, -⟩ := (takes_demand _ _ _ _).1 hop
  exact steady_payload (Opcode.writable_of_push hop) m

theorem steady_step (step : Step) (p : Progress) : Steady step.decode p := by
  cases step with
  | opcode op => exact steady_expect op p
  | push n => exact (steady_push n p).discard

theorem steady_pattern (pattern : Pattern) (p : Progress) : Steady pattern.decode p := by
  induction pattern generalizing p with
  | nil => exact steady_pure () p
  | cons step rest ih => exact (steady_step step p).bind fun _ q _ => ih q

theorem steady_dataCarrier (p : Progress) : Steady dataCarrier p := by
  refine (steady_expect _ p).bind fun _ q _ => (steady_opcode q).bind fun r m hr => ?_
  obtain ⟨_, _, ⟨hop, -, -⟩, -⟩ := (takes_opcode _ _ _).1 hr
  obtain ⟨b, kind, value⟩ := r
  cases kind with
  | push =>
    cases value with
    | none => exact steady_throw rfl m
    | some length =>
      have hw : Decimal.Writable length := Opcode.writable_ofByte (congrArg Opcode.value hop.symm)
      exact (steady_emit _ m).bind fun _ n _ => (steady_payload hw n).discard
  | zero | one | small | dup | hash160 | equal | equalVerify | checkSig | checkMultisig | ret
    | unsupported => exact steady_throw rfl m

theorem steady_number (op : Opcode) (f : Int → α) {e : Failure} (he : e.isEnd = false)
    (p : Progress) : Steady (match op.number? with
      | some n => do
        emit op
        pure (f n)
      | none => throw e) p := by
  cases op.number? with
  | none => exact steady_throw he p
  | some n => exact (steady_emit op p).bind fun _ q _ => steady_pure (f n) q

theorem steady_threshold (p : Progress) : Steady threshold p :=
  (steady_opcode p).bind fun r q _ => steady_number r.2 id rfl q

theorem steady_keyOrCount (p : Progress) : Steady keyOrCount p := by
  refine (steady_opcode p).bind fun r q _ => ?_
  by_cases hr : r.2 = ⟨.push, some 65⟩
  · simp only [if_pos hr]
    exact (steady_emit r.2 q).bind fun _ m _ => (steady_payload Opcode.writable_key m).bind
      fun _ n _ => steady_pure none n
  · simp only [if_neg hr]
    exact steady_number r.2 some rfl q

theorem steady_keys (observed : Nat) (p : Progress) : Steady (keys observed) p := by
  induction observed, p using keys.induct with
  | case1 observed p e m h =>
    rw [keys_eq_bind]
    refine (steady_keyOrCount p).bind fun r q hr => ?_
    cases h.symm.trans hr
  | case2 observed p declared m h =>
    rw [keys_eq_bind]
    refine (steady_keyOrCount p).bind fun r q hr => ?_
    obtain ⟨rfl, rfl⟩ := EStateM.Result.ok.inj (h.symm.trans hr)
    exact steady_pure (observed, declared) m
  | case3 observed p m h ih =>
    rw [keys_eq_bind]
    refine (steady_keyOrCount p).bind fun r q hr => ?_
    obtain ⟨rfl, rfl⟩ := EStateM.Result.ok.inj (h.symm.trans hr)
    exact ih

theorem steady_multisig (p : Progress) : Steady multisig p := by
  refine (steady_threshold p).bind fun required q _ => (steady_keys 0 q).bind fun r m _ => ?_
  by_cases hn : (r.1 : Int) = r.2
  · by_cases hr : r.2 < required
    · simp only [hn, ne_eq, not_true_eq_false, if_false, if_pos hr]
      exact steady_throw rfl m
    · simp only [hn, ne_eq, not_true_eq_false, if_false, if_neg hr]
      exact steady_expect _ m
  · simp only [ne_eq, hn, not_false_eq_true, if_true]
    exact steady_throw rfl m

theorem steady_ofKind (kind : Kind) (p : Progress) : Steady (ofKind kind) p := by
  cases kind with
  | p2pk | p2pkh | p2sh | p2wpkh | p2wsh | p2tr => exact steady_pattern _ p
  | multisig => exact steady_multisig p
  | dataCarrier => exact steady_dataCarrier p

end Steady

end Decoder

end CoinWire.Script
