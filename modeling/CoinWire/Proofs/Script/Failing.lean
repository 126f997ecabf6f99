import CoinWire.Proofs.Script.Steady

/-!
How decoders fail, with the bytes they have consumed and the tokens they have emitted by then. Steps one after
another fail where the first of them fails, behind all that the steps before it took, and so the failures of a
decoder are known from those of its steps and from what its steps take.
-/

namespace CoinWire.Script

/-- At `c` there are fewer bytes than `needed`, and the failure says so. -/
def Cursor.Lacks (c : Cursor) (needed : Int) (e : Failure) : Prop :=
  (c.remaining : Int) < needed ∧ e = c.short needed

theorem Cursor.lacks_of_unread {c : Cursor} {needed : Int} {position : Nat} {tail : Bytes}
    (hp : c.position = position) (hc : c.unread = tail) (hl : (tail.length : Int) < needed) :
    c.Lacks needed (.unexpectedEnd needed position tail.length) := by
  subst hp hc
  exact ⟨hl, rfl⟩

namespace Decoder

variable {α β : Type}

/-- Here `failed e bytes tokens c` says that the failure is found at `c`, behind the bytes and the tokens. -/
def Fails (decoder : Decoder α) (failed : Failure → Bytes → List String → Cursor → Prop) : Prop :=
  ∀ p e q, decoder p = .error e q ↔
    ∃ bytes tokens, failed e bytes tokens q.cursor ∧ p.Advances bytes tokens q

variable {decoder : Decoder α} {failed : Failure → Bytes → List String → Cursor → Prop}

theorem Fails.congr {other : Failure → Bytes → List String → Cursor → Prop}
    (h : Fails decoder failed)
    (ho : ∀ e bytes tokens c, failed e bytes tokens c ↔ other e bytes tokens c) :
    Fails decoder other := by
  intro p e q
  rw [h p e q]
  simp only [ho]

theorem Fails.run (h : Fails decoder failed) {p : Progress} {e : Failure} {bytes rest : Bytes}
    {tokens : List String} (hf : failed e bytes tokens (p.after bytes tokens rest).cursor)
    (hu : p.cursor.unread = bytes ++ rest) : decoder p = .error e (p.after bytes tokens rest) :=
  (h _ _ _).2 ⟨bytes, tokens, hf, Progress.advances_after hu⟩

theorem fails_pure (a : α) : Fails (pure a) fun _ _ _ _ => False := by
  intro p e q
  constructor
  · intro h
    cases h
  · intro h
    obtain ⟨_, _, hf, -⟩ := h
    exact hf.elim

/-- A failure of the step itself, before which it consumes and emits nothing. -/
theorem fails_at_once {reason : Failure → Cursor → Prop}
    (h : ∀ p e q, decoder p = .error e q ↔ reason e q.cursor ∧ q = p) :
    Fails decoder fun e bytes tokens c => reason e c ∧ bytes = [] ∧ tokens = [] := by
  intro p e q
  rw [h]
  constructor
  · intro hr
    obtain ⟨hr, hq⟩ := hr
    exact ⟨[], [], ⟨hr, rfl, rfl⟩, Progress.advances_nil_iff.2 hq⟩
  · intro hr
    obtain ⟨_, _, ⟨hr, rfl, rfl⟩, hq⟩ := hr
    exact ⟨hr, Progress.advances_nil_iff.1 hq⟩

theorem fails_throw (e : Failure) : Fails (throw e : Decoder α) fun e' bytes tokens _ =>
    e' = e ∧ bytes = [] ∧ tokens = [] := by
  refine fails_at_once fun p e' q => ?_
  change EStateM.Result.error e p = .error e' q ↔ _
  rw [EStateM.Result.error.injEq, eq_comm, @eq_comm _ p]

theorem fails_demand (result : Except Failure α) : Fails (demand result) fun e bytes tokens _ =>
    result = .error e ∧ bytes = [] ∧ tokens = [] := by
  cases result with
  | error e => exact (fails_throw e).congr fun _ _ _ _ => by simp [eq_comm]
  | ok a => exact (fails_pure a).congr fun _ _ _ _ => by simp

/-- The second decoder only matters for what the first one takes. -/
theorem Fails.bindTaken {taken : α → Bytes → List String → Prop} (h : Fails decoder failed)
    (ht : Takes decoder taken) {next : α → Decoder β}
    {following : α → Failure → Bytes → List String → Cursor → Prop}
    (hn : ∀ a u s, taken a u s → Fails (next a) (following a)) :
    Fails (decoder >>= next) fun e bytes tokens c => failed e bytes tokens c ∨
      ∃ a u s v t, taken a u s ∧ following a e v t c ∧ bytes = u ++ v ∧ tokens = s ++ t := by
  intro p e q
  rw [run_bind_eq_error_iff]
  constructor
  · intro hr
    obtain hr | ⟨a, m, ha, hr⟩ := hr
    · obtain ⟨bytes, tokens, hf, hq⟩ := (h _ _ _).1 hr
      exact ⟨bytes, tokens, .inl hf, hq⟩
    · obtain ⟨u, s, hu, hm⟩ := (ht _ _ _).1 ha
      obtain ⟨v, t, hv, hq⟩ := (hn a u s hu _ _ _).1 hr
      exact ⟨u ++ v, s ++ t, .inr ⟨a, u, s, v, t, hu, hv, rfl, rfl⟩,
        Progress.advances_append_iff.2 ⟨m, hm, hq⟩⟩
  · intro hr
    obtain ⟨_, _, hf | ⟨a, u, s, v, t, hu, hv, rfl, rfl⟩, hq⟩ := hr
    · exact .inl ((h _ _ _).2 ⟨_, _, hf, hq⟩)
    · obtain ⟨m, hm, hq⟩ := Progress.advances_append_iff.1 hq
      exact .inr ⟨a, m, (ht _ _ _).2 ⟨u, s, hu, hm⟩, (hn a u s hu _ _ _).2 ⟨v, t, hv, hq⟩⟩

theorem Fails.bind {taken : α → Bytes → List String → Prop} (h : Fails decoder failed)
    (ht : Takes decoder taken) {next : α → Decoder β}
    {following : α → Failure → Bytes → List String → Cursor → Prop}
    (hn : ∀ a, Fails (next a) (following a)) :
    Fails (decoder >>= next) fun e bytes tokens c => failed e bytes tokens c ∨
      ∃ a u s v t, taken a u s ∧ following a e v t c ∧ bytes = u ++ v ∧ tokens = s ++ t :=
  h.bindTaken ht fun a _ _ _ => hn a

theorem Fails.discard (h : Fails decoder failed) : Fails (discard decoder) failed := by
  intro p e q
  rw [← h p e q, discard_eq_bind, run_bind_eq_error_iff]
  constructor
  · intro hr
    obtain hr | ⟨a, m, -, hr⟩ := hr
    · exact hr
    · cases hr
  · exact .inl

theorem fails_ofCursor {read : Cursor → Except Failure (α × Cursor)}
    {reason : Failure → Cursor → Prop} (h : ∀ c e, read c = .error e ↔ reason e c) :
    Fails (ofCursor read) fun e bytes tokens c => reason e c ∧ bytes = [] ∧ tokens = [] := by
  refine fails_at_once fun p e q => ?_
  rw [← h]
  constructor
  · intro hr
    simp only [ofCursor] at hr
    cases hread : read p.cursor with
    | ok r =>
      rw [hread] at hr
      cases hr
    | error e' =>
      rw [hread] at hr
      obtain ⟨rfl, rfl⟩ := EStateM.Result.error.inj hr
      exact ⟨hread, rfl⟩
  · intro hr
    obtain ⟨hr, rfl⟩ := hr
    exact ofCursor_of_error hr

theorem fails_opcode : Fails opcode fun e bytes tokens c =>
    c.Lacks 1 e ∧ bytes = [] ∧ tokens = [] := by
  have hnext (c : Cursor) (e : Failure) : c.next = .error e ↔ c.Lacks 1 e := by
    obtain ⟨past, _ | ⟨b, rest⟩⟩ := c
    · simp [Cursor.next, Cursor.Lacks, Cursor.remaining, eq_comm]
    · constructor
      · intro h
        cases h
      · intro h
        obtain ⟨hl, -⟩ := h
        simp only [Cursor.remaining, List.length_cons] at hl
        omega
  have htakes : Takes (ofCursor Cursor.next) fun b bytes tokens => bytes = [b] ∧ tokens = [] :=
    takes_ofCursor fun c b d => by rw [Cursor.next_eq_ok_iff, exists_eq_left]
  refine ((fails_ofCursor hnext).bind htakes fun b => fails_pure (b, Opcode.ofByte b)).congr
    fun _ _ _ _ => ?_
  simp

theorem fails_emitBytes (data : Bytes) : Fails (emitBytes data) fun _ _ _ _ => False := by
  intro p e q
  simp [emitBytes]

section Written

variable [DigitLimit]

theorem fails_bytes {n : Int} (hw : Decimal.Writable n) : Fails (bytes n) fun e bytes tokens c =>
    (n < 0 ∧ e = .negativeRead n ∨ 0 ≤ n ∧ c.Lacks n e) ∧ bytes = [] ∧ tokens = [] := by
  refine fails_ofCursor fun c e => ?_
  rw [Cursor.read, map_eq_error_iff, Cursor.peek]
  by_cases hn : n < 0
  · simp [hn, Int.not_le.2 hn, eq_comm]
  · by_cases hs : (c.remaining : Int) < n
    · simp [hn, hs, hw, Int.not_lt.1 hn, Cursor.Lacks, eq_comm]
    · simp [hn, hs, Cursor.Lacks]

theorem fails_emit (op : Opcode) : Fails (emit op) fun e bytes tokens _ =>
    op.mnemonic = .error e ∧ bytes = [] ∧ tokens = [] := by
  cases hm : op.mnemonic with
  | error e =>
    rw [emit_of_error hm]
    exact (fails_throw e).congr fun _ _ _ _ => by simp [eq_comm]
  | ok name =>
    intro p e q
    rw [emit_of_ok hm]
    simp

theorem fails_payload {n : Int} (hw : Decimal.Writable n) :
    Fails (payload n) fun e bytes tokens c =>
      (n < 0 ∧ e = .negativeRead n ∨ 0 ≤ n ∧ c.Lacks n e) ∧ bytes = [] ∧ tokens = [] := by
  refine ((fails_bytes hw).bind (takes_bytes n) fun data => (fails_emitBytes data).bind
    (takes_emitBytes data) fun _ => fails_pure data).congr fun _ _ _ _ => ?_
  simp

end Written

end Decoder

variable [DigitLimit]

inductive Misses (op : Opcode) : Failure → Bytes → List String → Cursor → Prop
  | short {e : Failure} {c : Cursor} (h : c.Lacks 1 e) : Misses op e [] [] c
  | unnamed {e : Failure} {b : UInt8} {c : Cursor} (h : op.mnemonic = .error e) :
      Misses op e [b] [] c
  | other {b : UInt8} {name : String} {c : Cursor} (h : Opcode.ofByte b ≠ op)
      (hm : op.mnemonic = .ok name) : Misses op (.mismatch name b.toNat) [b] [] c

namespace Decoder

theorem fails_expect (op : Opcode) : Fails (expect op) (Misses op) := by
  have hfault (b : UInt8) : Fails (demand op.mnemonic >>= fun name =>
      (throw (.mismatch name b.toNat) : Decoder Unit)) fun e bytes tokens _ =>
      (op.mnemonic = .error e ∨ ∃ name, op.mnemonic = .ok name ∧ e = .mismatch name b.toNat) ∧
        bytes = [] ∧ tokens = [] := by
    refine ((fails_demand op.mnemonic).bind (takes_demand _) fun name => fails_throw _).congr
      fun e bytes tokens c => ?_
    constructor
    · intro h
      obtain ⟨hm, rfl, rfl⟩ | ⟨name, _, _, _, _, ⟨hm, rfl, rfl⟩, ⟨rfl, rfl, rfl⟩, rfl, rfl⟩ := h
      · exact ⟨.inl hm, rfl, rfl⟩
      · exact ⟨.inr ⟨name, hm, rfl⟩, rfl, rfl⟩
    · intro h
      obtain ⟨hm | ⟨name, hm, rfl⟩, rfl, rfl⟩ := h
      · exact .inl ⟨hm, rfl, rfl⟩
      · exact .inr ⟨name, [], [], [], [], ⟨hm, rfl, rfl⟩, ⟨rfl, rfl, rfl⟩, rfl, rfl⟩
  have hnext (r : UInt8 × Opcode) : Fails (if r.2 = op then emit r.2
      else demand op.mnemonic >>= fun name => throw (.mismatch name r.1.toNat))
      fun e bytes tokens _ => (op.mnemonic = .error e ∨ r.2 ≠ op ∧
        ∃ name, op.mnemonic = .ok name ∧ e = .mismatch name r.1.toNat) ∧
        bytes = [] ∧ tokens = [] := by
    by_cases hr : r.2 = op
    · rw [if_pos hr, hr]
      exact (fails_emit op).congr fun _ _ _ _ => by simp
    · rw [if_neg hr]
      exact (hfault r.1).congr fun _ _ _ _ => by simp [hr]
  refine (fails_opcode.bind takes_opcode hnext).congr fun e bytes tokens c => ?_
  constructor
  · intro h
    obtain ⟨hs, rfl, rfl⟩ | ⟨r, _, _, _, _, ⟨hb, rfl, rfl⟩, ⟨hcase, rfl, rfl⟩, rfl, rfl⟩ := h
    · exact .short hs
    · obtain hm | ⟨hr, name, hm, rfl⟩ := hcase
      · exact .unnamed hm
      · rw [hb] at hr
        exact .other hr hm
  · intro h
    cases h with
    | short hs => exact .inl ⟨hs, rfl, rfl⟩
    | @unnamed e b c hm =>
      exact .inr ⟨(b, .ofByte b), [b], [], [], [], ⟨rfl, rfl, rfl⟩, ⟨.inl hm, rfl, rfl⟩, rfl, rfl⟩
    | @other b name c hr hm =>
      exact .inr ⟨(b, .ofByte b), [b], [], [], [], ⟨rfl, rfl, rfl⟩,
        ⟨.inr ⟨hr, name, hm, rfl⟩, rfl, rfl⟩, rfl, rfl⟩

end Decoder

end CoinWire.Script
