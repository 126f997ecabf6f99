import CoinWire.Proofs.Script.Extension
import CoinWire.Proofs.Script.Viable

/-!
Scripts that end too soon. The failure that reports a missing byte means just that more bytes could make
up a script with an assembly, but for lists of more keys than a number can tell, which the template reads to
their end before it would compare the numbers.
-/

namespace CoinWire.Script

namespace Decoder

variable {data rest : Bytes}

theorem completes_script {s : Standard} (hs : s.Valid) (h : data ++ rest = s.bytes) :
    Completes script (.start data) := by
  have hdecode : (decode (data ++ rest)).value = .ok (s.progress []) :=
    decode_eq_ok_iff_standard.2 ⟨s, [], hs, h.trans (List.append_nil _).symm, rfl⟩
  exact ⟨rest, (), _, decode_eq_ok_iff_script.1 hdecode, rfl⟩

/-- One or two opcodes that tell no kind yet could begin some standard script. -/
theorem completes_of_runsOut_classify (h : RunsOut classify (.start data)) :
    Completes script (.start data) := by
  obtain ⟨e, q, h, he⟩ := h
  obtain ⟨hk, -⟩ := classify_eq_error_iff.1 h
  rcases (Cursor.start data).kind_cases with ⟨-, hend⟩ | ⟨hu, -⟩ | ⟨b, hb, hu, -⟩
  · have hfalse := hend e hk
    rw [he] at hfalse
    cases hfalse
  · obtain rfl : data = [] := hu
    have hs : (Standard.dataCarrier [0]).Valid := by
      decide
    exact completes_script hs (List.nil_append _)
  · obtain rfl : data = [b] := hu
    rcases hb with hz | ⟨n, hn⟩
    · obtain rfl : b = 0x00 := (Opcode.ofByte_named_iff rfl).1 hz
      have hs : (Standard.p2wpkh (.replicate 20 0)).Valid := List.length_replicate
      exact completes_script hs rfl
    · obtain ⟨required, rfl, h1, h16, rfl⟩ := taken_number_iff.1 hn
      have hs : (Standard.multisig required (.replicate required (.replicate 65 0))).Valid := by
        refine ⟨h1, ?_, ?_, fun key hkey => ?_⟩
        · exact Nat.le_of_eq List.length_replicate.symm
        · rwa [List.length_replicate]
        · rw [List.eq_of_mem_replicate hkey, List.length_replicate]
      exact completes_script hs rfl

theorem runsOut_script (h : RunsOut script (.start data)) :
    Completes script (.start data) ∨ Overfull data := by
  rcases runsOut_bind_iff.1 h with h | ⟨k, q, hk, h⟩
  · exact .inl (completes_of_runsOut_classify h)
  · obtain ⟨-, rfl⟩ := classify_eq_ok_iff.1 hk
    exact (runsOut_ofKind h).imp_left (Completes.after (steady_classify _) hk)

theorem runsOut_script_of_overfull (h : Overfull data) : RunsOut script (.start data) := by
  have hk : classify (.start data) = .ok .multisig (.start data) := by
    obtain ⟨required, found, part, h1, h16, hn, hfound, rfl⟩ := h
    refine classify_eq_ok_iff.2 ⟨?_, rfl⟩
    cases found with
    | nil => exact absurd hn (Nat.not_lt_zero 16)
    | cons key found =>
      obtain ⟨tail, rfl⟩ := hfound.exists_cons
      exact kind_of_number h1 h16 tail
  apply runsOut_bind_iff.2
  right
  exact ⟨.multisig, .start data, hk, runsOut_of_overfull h⟩

end Decoder

variable {settings : Settings} {script : Bytes}

theorem decode_error_of_asm {e : Failure} (h : (asm settings script).value = .error e)
    (he : e.isEnd = true) : (decode script).value = .error e := by
  cases hd : (decode script).value with
  | error e' =>
    rw [asm_of_decode_error hd] at h
    rw [Except.error.inj h]
  | ok p =>
    rw [asm_of_decode hd, accept] at h
    split at h
    · cases h
    · obtain rfl := Except.error.inj h
      cases he

theorem asm_unexpectedEnd_iff_runsOut :
    (∃ needed position available,
      (asm settings script).value = .error (.unexpectedEnd needed position available)) ↔
      Decoder.RunsOut Decoder.script (.start script) := by
  constructor
  · intro h
    obtain ⟨needed, position, available, h⟩ := h
    obtain ⟨q, hq⟩ := decode_eq_error_iff_script.1 (decode_error_of_asm h rfl)
    exact ⟨_, q, hq, rfl⟩
  · intro h
    obtain ⟨e, q, hq, he⟩ := h
    have hd := decode_eq_error_iff_script.2 ⟨q, hq⟩
    obtain ⟨needed, position, available, rfl, -⟩ := decode_short hd he
    exact ⟨needed, position, available, asm_of_decode_error hd⟩

theorem strict_append_iff {rest : Bytes} : (∃ text, (asm {} (script ++ rest)).value = .ok text) ↔
    ∃ q, Decoder.script ((Progress.start script).extend rest) = .ok () q ∧
      q.cursor.unread = [] := by
  simp only [strict_eq_ok_iff, decode_eq_ok_iff_script]
  constructor
  · intro h
    obtain ⟨_, q, hq, hr, -⟩ := h
    exact ⟨q, hq, List.length_eq_zero_iff.1 hr⟩
  · intro h
    obtain ⟨q, hq, hu⟩ := h
    exact ⟨_, q, hq, List.length_eq_zero_iff.2 hu, rfl⟩

/-- A script is reported to end too soon just when it could go on to one that has an assembly, or when its
keys are more than a number can tell. The report says how much is missing, and stays the same until the
missing bytes are there. -/
theorem unexpectedEnd_iff_incomplete (settings : Settings) (script : Bytes) :
    ((∃ needed position available,
      (asm settings script).value = .error (.unexpectedEnd needed position available)) ↔
      (∃ rest text, rest ≠ [] ∧ (asm {} (script ++ rest)).value = .ok text) ∨
        Overfull script) ∧
    ∀ needed position available,
      (asm settings script).value = .error (.unexpectedEnd needed position available) →
      position + available = script.length ∧ available < needed ∧
      ∀ more : Bytes, more.length < needed - available → (asm settings (script ++ more)).value =
        .error (.unexpectedEnd needed position (available + more.length)) := by
  refine ⟨?_, fun needed position available h => ?_⟩
  · rw [asm_unexpectedEnd_iff_runsOut]
    constructor
    · intro h
      rcases Decoder.runsOut_script h with ⟨rest, _, q, hq, hu⟩ | hover
      · left
        obtain ⟨text, ht⟩ := strict_append_iff.2 ⟨q, hq, hu⟩
        refine ⟨rest, text, ?_, ht⟩
        -- with nothing behind, the script itself would have an assembly
        rintro rfl
        rw [Progress.extend_nil] at hq
        exact Decoder.not_runsOut_of_ok hq h
      · exact .inr hover
    · intro h
      rcases h with ⟨rest, text, hr, ht⟩ | hover
      · obtain ⟨q, hq, hu⟩ := strict_append_iff.1 ⟨text, ht⟩
        exact (Decoder.steady_script _).runsOut hr hq hu
      · exact Decoder.runsOut_script_of_overfull hover
  · obtain ⟨_, _, _, he, hsize, hlt, hmore⟩ := decode_short (decode_error_of_asm h rfl) rfl
    obtain ⟨rfl, rfl, rfl⟩ := Failure.unexpectedEnd.inj he
    exact ⟨hsize, hlt, fun more hl => asm_of_decode_error (hmore more hl)⟩

example : (asm {} [0x6a, 0x02, 0xff]).value = .error (.unexpectedEnd 2 2 1) := by
  rfl

end CoinWire.Script
