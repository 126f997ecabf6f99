import CoinWire.Proofs.Script.Grammar
import CoinWire.Proofs.Script.Steady

/-!
Scripts with more bytes behind them. A script that is decided stays decided when it goes on: the assembly
and every failure but a shortage depend on its first bytes only. The bytes consumed are therefore the one
length at which a script without anything behind it succeeds, and refusing what follows changes nothing
else.
-/

namespace CoinWire.Script

namespace Opcode

/-- An opcode that tells the kind only together with the one behind it. -/
def Opens (op : Opcode) : Prop := op = ⟨.zero, none⟩ ∨ ∃ n, op.number? = some n

theorem Opens.ofLeading? {op : Opcode} (h : op.Opens) : Kind.ofLeading? op = none := by
  rcases h with rfl | ⟨n, hn⟩
  · rfl
  · exact ofLeading?_of_number? hn

end Opcode

namespace Cursor

variable {past : Bytes} {first : UInt8}

theorem kind_of_opens (h : (Opcode.ofByte first).Opens) :
    (Cursor.mk past [first]).kind = .error ((Cursor.mk past [first]).short 2) := by
  simp only [Cursor.kind, h.ofLeading?]
  by_cases hz : Opcode.ofByte first = ⟨.zero, none⟩
  · rw [if_pos hz]
  · obtain ⟨n, hn⟩ := h.resolve_left hz
    rw [if_neg hz, hn]
    rfl

theorem kind_of_not_opens (h : ¬ (Opcode.ofByte first).Opens) (rest : Bytes) :
    (Cursor.mk past (first :: rest)).kind = match Kind.ofLeading? (.ofByte first) with
      | some kind => .ok kind
      | none => .error (.unrecognized first.toNat) := by
  have hz : ¬ Opcode.ofByte first = ⟨.zero, none⟩ := fun hz => h (.inl hz)
  have hn : (Opcode.ofByte first).number? = none := by
    cases hn : (Opcode.ofByte first).number? with
    | none => rfl
    | some n => exact absurd (.inr ⟨n, hn⟩) h
  simp only [Cursor.kind, if_neg hz, hn]
  rfl

theorem isEnd_of_kind_cons_cons {second : UInt8} {rest : Bytes} {e : Failure}
    (h : (Cursor.mk past (first :: second :: rest)).kind = .error e) : e.isEnd = false := by
  simp only [Cursor.kind] at h
  split at h
  · cases h
  · split at h
    · split at h
      · cases h
      · obtain rfl := Except.error.inj h
        rfl
    · split at h
      · split at h
        · cases h
        · cases h
      · obtain rfl := Except.error.inj h
        rfl

/-- The kind is told by what is there, or else by two bytes that are not both there. -/
theorem kind_cases (c : Cursor) :
    ((∀ more, (c.extend more).kind = c.kind) ∧ ∀ e, c.kind = .error e → e.isEnd = false) ∨
      (c.unread = [] ∧ c.kind = .error (c.short 1)) ∨
      ∃ b, (Opcode.ofByte b).Opens ∧ c.unread = [b] ∧ c.kind = .error (c.short 2) := by
  obtain ⟨past, unread⟩ := c
  cases unread with
  | nil => exact .inr (.inl ⟨rfl, rfl⟩)
  | cons first rest =>
    by_cases h : (Opcode.ofByte first).Opens
    · cases rest with
      | nil => exact .inr (.inr ⟨first, h, rfl, kind_of_opens h⟩)
      | cons second rest => exact .inl ⟨fun more => rfl, fun e => isEnd_of_kind_cons_cons⟩
    · left
      refine ⟨fun more => ?_, fun e he => ?_⟩
      · rw [kind_of_not_opens h]
        exact kind_of_not_opens h (rest ++ more)
      · rw [kind_of_not_opens h] at he
        split at he
        · cases he
        · obtain rfl := Except.error.inj he
          rfl

end Cursor

namespace Decoder

def classify : Decoder Kind := ofCursor fun c => c.kind.map fun kind => (kind, c)

def script : Decoder Unit := do
  let kind ← classify
  ofKind kind

theorem steady_classify (p : Progress) : Steady classify p := by
  have hshort (n : Nat) (hk : p.cursor.kind = .error (p.cursor.short (n + 1)))
      (hn : p.cursor.remaining = n) : Steady classify p := by
    refine @steady_of_short _ _ p (n + 1) (by omega) fun more hmore => ?_
    rw [Cursor.remaining_extend] at hmore
    obtain rfl : more = [] := List.length_eq_zero_iff.1 (by omega)
    rw [Cursor.extend_nil, Progress.extend_nil]
    exact ofCursor_of_error (map_eq_error_iff.2 hk)
  rcases p.cursor.kind_cases with ⟨hextend, hend⟩ | ⟨hu, hs⟩ | ⟨b, -, hu, hs⟩
  · cases hk : p.cursor.kind with
    | ok k =>
      refine steady_of_ok rfl fun more => ofCursor_of_ok (map_eq_ok_iff.2 ⟨k, ?_, rfl⟩)
      exact (hextend more).trans hk
    | error e =>
      refine steady_of_settled (hend e hk) fun more => ofCursor_of_error (map_eq_error_iff.2 ?_)
      exact (hextend more).trans hk
  · exact hshort 0 hs (by rw [Cursor.remaining, hu]; rfl)
  · exact hshort 1 hs (by rw [Cursor.remaining, hu]; rfl)

theorem steady_script (p : Progress) : Steady script p :=
  (steady_classify p).bind fun kind q _ => steady_ofKind kind q

section Classify

variable {p q : Progress} {k : Kind} {e : Failure}

theorem classify_eq_ok_iff : classify p = .ok k q ↔ p.cursor.kind = .ok k ∧ q = p := by
  simp only [classify, ofCursor]
  cases p.cursor.kind with
  | error e => simp [Except.map]
  | ok k' =>
    simp only [Except.map, EStateM.Result.ok.injEq, Except.ok.injEq]
    exact and_congr_right fun _ => eq_comm

theorem classify_eq_error_iff : classify p = .error e q ↔ p.cursor.kind = .error e ∧ q = p := by
  simp only [classify, ofCursor]
  cases p.cursor.kind with
  | error e' => simp [Except.map, eq_comm]
  | ok k => simp [Except.map]

end Classify

end Decoder

variable {data : Bytes}

theorem decode_eq_ok_iff_script {p : Progress} :
    (decode data).value = .ok p ↔ Decoder.script (.start data) = .ok () p := by
  rw [decode_eq_ok_iff, Decoder.script, run_bind_eq_ok_iff]
  simp only [Decoder.classify_eq_ok_iff]
  constructor
  · intro h
    obtain ⟨k, hk, hp⟩ := h
    exact ⟨k, .start data, ⟨hk, rfl⟩, hp⟩
  · intro h
    obtain ⟨k, _, ⟨hk, rfl⟩, hp⟩ := h
    exact ⟨k, hk, hp⟩

theorem decode_eq_error_iff {e : Failure} :
    (decode data).value = .error e ↔ kind data = .error e ∨
      ∃ k q, kind data = .ok k ∧ Decoder.ofKind k (.start data) = .error e q := by
  rw [decode]
  cases kind data with
  | error e' => simp
  | ok k =>
    simp only [Logged.value_bind]
    cases hd : Decoder.ofKind k (.start data) with
    | ok a p => simp [hd]
    | error e' q => simp [hd]

theorem decode_eq_error_iff_script {e : Failure} :
    (decode data).value = .error e ↔ ∃ q, Decoder.script (.start data) = .error e q := by
  rw [decode_eq_error_iff]
  simp only [Decoder.script, run_bind_eq_error_iff, Decoder.classify_eq_ok_iff,
    Decoder.classify_eq_error_iff]
  constructor
  · intro h
    rcases h with hk | ⟨k, q, hk, hq⟩
    · exact ⟨.start data, .inl ⟨hk, rfl⟩⟩
    · exact ⟨q, .inr ⟨k, .start data, ⟨hk, rfl⟩, hq⟩⟩
  · intro h
    rcases h with ⟨q, ⟨hk, -⟩ | ⟨k, _, ⟨hk, rfl⟩, hq⟩⟩
    · exact .inl hk
    · exact .inr ⟨k, q, hk, hq⟩

theorem decode_append {p : Progress} (h : (decode data).value = .ok p) (more : Bytes) :
    (decode (data ++ more)).value = .ok (p.extend more) := by
  have hp := decode_eq_ok_iff_script.1 h
  exact decode_eq_ok_iff_script.2 (((Decoder.steady_script _).ok hp).2 more)

theorem decode_append_of_error {e : Failure} (h : (decode data).value = .error e)
    (he : e.isEnd = false) (more : Bytes) : (decode (data ++ more)).value = .error e := by
  obtain ⟨q, hq⟩ := decode_eq_error_iff_script.1 h
  exact decode_eq_error_iff_script.2
    ⟨q.extend more, (Decoder.steady_script _).settled hq he more⟩

/-- A shortage says where the script ends and how much is missing there. -/
theorem decode_short {e : Failure} (h : (decode data).value = .error e) (he : e.isEnd = true) :
    ∃ needed position available : Int, e = .unexpectedEnd needed position available ∧
      position + available = data.length ∧ available < needed ∧
      ∀ more : Bytes, more.length < needed - available → (decode (data ++ more)).value =
        .error (.unexpectedEnd needed position (available + more.length)) := by
  obtain ⟨q, hq⟩ := decode_eq_error_iff_script.1 h
  obtain ⟨hdata, needed, rfl, hlt, hextend⟩ := (Decoder.steady_script _).short hq he
  refine ⟨needed, q.cursor.position, q.cursor.remaining, rfl, ?_, hlt, fun more hmore => ?_⟩
  · have hsize := q.cursor.length_data
    rw [hdata, Progress.start, Cursor.data_start, Cursor.size] at hsize
    omega
  · have hr := q.cursor.remaining_extend more
    have hscript := hextend more (by omega)
    rw [Cursor.short, hr, Int.natCast_add] at hscript
    exact decode_eq_error_iff_script.2 ⟨q.extend more, hscript⟩

/-- How many bytes of a script its template takes. -/
def consumed (data : Bytes) : Except Failure Nat :=
  (decode data).value.map fun p => p.cursor.position

section Outcome

variable {settings : Settings} {p : Progress} {text : String} {e : Failure}

theorem asm_of_decode_error (h : (decode data).value = .error e) :
    (asm settings data).value = .error e := by
  change ((decode data).value.bind (accept settings)).map Asm.text = .error e
  rw [h]
  rfl

theorem asm_of_decode (h : (decode data).value = .ok p) :
    (asm settings data).value = (accept settings p).map Asm.text := by
  change ((decode data).value.bind (accept settings)).map Asm.text = _
  rw [h]
  rfl

theorem permissive_of_decode (h : (decode data).value = .ok p) :
    (asm ⟨true⟩ data).value = .ok p.asm.text := by
  rw [asm_of_decode h, accept, if_pos (.inr rfl)]
  rfl

theorem strict_of_decode (h : (decode data).value = .ok p) :
    (asm {} data).value = if p.cursor.remaining = 0 then .ok p.asm.text
      else .error (.trailing p.cursor.remaining) := by
  have hend : (p.cursor.atEnd = true ∨ ({} : Settings).allowTrailing = true) ↔
      p.cursor.remaining = 0 := by
    simp [Cursor.atEnd, Cursor.remaining]
  rw [asm_of_decode h, accept]
  simp only [hend]
  split
  · rfl
  · rfl

theorem strict_eq_ok_iff : (asm {} data).value = .ok text ↔
    ∃ p, (decode data).value = .ok p ∧ p.cursor.remaining = 0 ∧ text = p.asm.text := by
  cases hd : (decode data).value with
  | error e => simp [asm_of_decode_error hd]
  | ok p =>
    rw [strict_of_decode hd]
    split
    · next hr => simp [hr, eq_comm]
    · next hr => simp [hr]

theorem size_of_decode (h : (decode data).value = .ok p) :
    p.cursor.position + p.cursor.remaining = data.length := by
  have hdata := ((Decoder.steady_script _).ok (decode_eq_ok_iff_script.1 h)).1
  rw [Progress.start, Cursor.data_start] at hdata
  rw [← hdata, Cursor.length_data, Cursor.size]

/-- Cut where its template ends, a script decodes to the same assembly. -/
theorem decode_take (h : (decode data).value = .ok p) :
    (decode (data.take p.cursor.position)).value = .ok ⟨⟨p.cursor.past, []⟩, p.asm⟩ := by
  obtain ⟨s, rest, hv, rfl, rfl⟩ := decode_eq_ok_iff_standard.1 h
  have hpos : (s.progress rest).cursor.position = s.bytes.length := List.length_reverse
  rw [hpos, List.take_left' rfl]
  exact decode_eq_ok_iff_standard.2 ⟨s, [], hv, (List.append_nil _).symm, rfl⟩

/-- No other cut does. -/
theorem strict_take_iff (h : (decode data).value = .ok p) {j : Nat} (hj : j ≤ data.length) :
    (asm {} (data.take j)).value = .ok text ↔ j = p.cursor.position ∧ text = p.asm.text := by
  rw [strict_eq_ok_iff]
  constructor
  · intro hs
    obtain ⟨q, hq, hr, rfl⟩ := hs
    have hsize := size_of_decode hq
    have hwhole := decode_append hq (data.drop j)
    rw [List.take_append_drop, h] at hwhole
    obtain rfl := Except.ok.inj hwhole
    rw [hr, List.length_take] at hsize
    refine ⟨?_, rfl⟩
    change j = q.cursor.position
    omega
  · intro hs
    obtain ⟨rfl, rfl⟩ := hs
    exact ⟨_, decode_take h, rfl, rfl⟩

end Outcome

/-- Permissive decoding depends on the first bytes of a script only, once there are enough of them. Strict
decoding differs from it just where bytes follow, and succeeds at exactly one length. -/
theorem asm_determined_by_prefix (script : Bytes) :
    (∀ more, (∀ needed position available, (asm ⟨true⟩ script).value ≠
        .error (.unexpectedEnd needed position available)) →
      (asm ⟨true⟩ (script ++ more)).value = (asm ⟨true⟩ script).value) ∧
    (∀ e, (asm ⟨true⟩ script).value = .error e → (asm {} script).value = .error e) ∧
    ∀ text, (asm ⟨true⟩ script).value = .ok text → ∃ k, consumed script = .ok k ∧
      k ≤ script.length ∧
      (asm {} script).value = (if k = script.length then .ok text
        else .error (.trailing (script.length - k))) ∧
      ∀ j ≤ script.length, ∀ other, (asm {} (script.take j)).value = .ok other ↔
        j = k ∧ other = text := by
  cases hd : (decode script).value with
  | error e =>
    have hasm (settings : Settings) : (asm settings script).value = .error e :=
      asm_of_decode_error hd
    refine ⟨fun more hne => ?_, fun e' he => ?_, fun text ht => ?_⟩
    · have hend : e.isEnd = false := by
        cases e with
        | unexpectedEnd needed position available => exact absurd (hasm _) (hne _ _ _)
        | _ => rfl
      rw [hasm, asm_of_decode_error (decode_append_of_error hd hend more)]
    · rw [← he, hasm, hasm]
    · cases (hasm _).symm.trans ht
  | ok p =>
    have hasm := permissive_of_decode hd
    refine ⟨fun more _ => ?_, fun e he => ?_, fun text ht => ?_⟩
    · rw [hasm, permissive_of_decode (decode_append hd more)]
      rfl
    · cases hasm.symm.trans he
    · obtain rfl := Except.ok.inj (hasm.symm.trans ht)
      have hsize := size_of_decode hd
      refine ⟨p.cursor.position, ?_, by omega, ?_, fun j hj other => strict_take_iff hd hj⟩
      · rw [consumed, hd]
        rfl
      · have hzero : p.cursor.remaining = 0 ↔ p.cursor.position = script.length := by
          omega
        have hcount : (p.cursor.remaining : Int) = script.length - p.cursor.position := by
          omega
        rw [strict_of_decode hd, hcount]
        simp only [hzero]

end CoinWire.Script
