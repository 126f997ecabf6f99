import CoinWire.Proofs.Script.Account
import CoinWire.Proofs.Script.Causes

/-!
What decoding a script leaves in the log. The kind comes first, wherever it can be told. A failure of kind or
template comes last, with its own message, and without such a failure nothing is said of one. Bytes behind a
script that did decode are the one failure that leaves no record.
-/

namespace CoinWire.Script

def opening (script : Bytes) (kind : Kind) : Log.Record :=
  ⟨.script, s!"Decoding {script.length}-byte script as {kind.name}"⟩

def failed (script : Bytes) (text : String) : Log.Record :=
  ⟨.script, "Failed to decode script " ++ Hex.encode script ++ ": " ++ text⟩

section Texts

variable {script : Bytes} {text other : String} {k l : Kind}

theorem opening_injective (h : opening script k = opening script l) : k = l := by
  have htexts := congrArg (fun record => record.message.toList) h
  simp only [opening, String.toList_append] at htexts
  exact Kind.name_injective (String.toList_injective (List.append_cancel_left htexts))

theorem failed_injective (h : failed script text = failed script other) : text = other := by
  have htexts := congrArg (fun record => record.message.toList) h
  simp only [failed, String.toList_append] at htexts
  exact String.toList_injective (List.append_cancel_left htexts)

theorem opening_ne_failed : opening script k ≠ failed script text := by
  intro h
  have htexts := congrArg (fun record => record.message.toList) h
  simp only [opening, failed, String.toList_append, List.append_assoc] at htexts
  -- the first characters differ
  cases htexts

end Texts

section Records

variable {settings : Settings} {script : Bytes} {e : Failure}

/-- Neither the kind nor a template is refused for bytes behind it. -/
theorem decode_ne_trailing (h : (decode script).value = .error e) (count : Int) :
    e ≠ .trailing count := by
  rintro rfl
  obtain hk | ⟨k, q, -, hq⟩ := decode_eq_error_iff.1 h
  · obtain ⟨needed, he⟩ | ⟨found, he⟩ | ⟨found, he⟩ := kind_error_cases hk <;> cases he
  · obtain ⟨bytes, tokens, hf, -⟩ := (Decoder.fails_ofKind k _ _ _).1 hq
    obtain ⟨spelled, owed, -, -, howed⟩ := hf.owes
    cases howed

theorem asm_eq_error_iff_decode (h : ∀ count, e ≠ .trailing count) :
    (asm settings script).value = .error e ↔ (decode script).value = .error e := by
  cases hd : (decode script).value with
  | error e' =>
    rw [asm_of_decode_error hd, Except.error.injEq, Except.error.injEq]
  | ok p =>
    rw [asm_of_decode hd, accept]
    simp only [reduceCtorEq, iff_false]
    intro he
    split at he
    · cases he
    · exact h _ (Except.error.inj he).symm

theorem records_failing (h : e.isDecoding = true) :
    (failing script e).records = [failed script e.message] := by
  rw [failing, if_pos h]
  rfl

/-- All that decoding leaves in the log, whatever may follow the template. -/
theorem records_asm (settings : Settings) (script : Bytes) :
    (asm settings script).records =
      (match kind script with
        | .ok k => [opening script k]
        | .error _ => []) ++
      match (decode script).value with
        | .ok _ => []
        | .error e => [failed script e.message] := by
  have hdecode : (asm settings script).records = (decode script).records := by
    simp only [asm, assemble, Logged.records_bind, Logged.records_pure, List.append_nil]
  rw [hdecode]
  cases hd : (decode script).value with
  | ok p =>
    obtain ⟨k, hk, hp⟩ := decode_eq_ok_iff.1 hd
    simp only [decode, hk, hp, Logged.records_bind, Logged.records_pure]
    rfl
  | error e =>
    have hasm : (asm settings script).value = .error e := asm_of_decode_error hd
    have hfailing : (failing script e).records = [failed script e.message] :=
      records_failing (isDecoding_of_asm hasm)
    obtain hk | ⟨k, q, hk, hq⟩ := decode_eq_error_iff.1 hd
    · simp only [decode, hk, Logged.records_bind, Logged.records_pure, hfailing, List.append_nil,
        List.nil_append]
    · simp only [decode, hk, hq, Logged.records_bind, Logged.records_pure, hfailing,
        List.append_nil]
      rfl

end Records

/-- The last record tells of a failure with this message, and none before it tells of any. -/
def ReportedLast (records : List Log.Record) (script : Bytes) (text : String) : Prop :=
  ∃ front, records = front ++ [failed script text] ∧ ∀ other, failed script other ∉ front

/-- The first record tells this kind, and none behind it tells any. -/
def OpenedFirst (records : List Log.Record) (script : Bytes) (kind : Kind) : Prop :=
  ∃ behind, records = opening script kind :: behind ∧ ∀ other, opening script other ∉ behind

section Reported

variable {settings : Settings} {script : Bytes} {k : Kind} {text : String}

theorem ReportedLast.mem {records : List Log.Record} (h : ReportedLast records script text) :
    failed script text ∈ records := by
  obtain ⟨front, rfl, -⟩ := h
  exact List.mem_append_right front (List.mem_singleton_self _)

theorem OpenedFirst.mem {records : List Log.Record} (h : OpenedFirst records script k) :
    opening script k ∈ records := by
  obtain ⟨behind, rfl, -⟩ := h
  exact List.mem_cons_self ..

theorem error_of_mem_records (h : failed script text ∈ (asm settings script).records) :
    ∃ e, (decode script).value = .error e ∧ text = e.message := by
  rw [records_asm] at h
  obtain h | h := List.mem_append.1 h
  · split at h
    · exact absurd (List.mem_singleton.1 h).symm opening_ne_failed
    · cases h
  · split at h
    · cases h
    · next e he => exact ⟨e, he, failed_injective (List.mem_singleton.1 h)⟩

theorem reportedLast_of_error {e : Failure} (h : (decode script).value = .error e) :
    ReportedLast (asm settings script).records script e.message := by
  rw [records_asm, h]
  refine ⟨_, rfl, fun other hm => ?_⟩
  split at hm
  · exact opening_ne_failed (List.mem_singleton.1 hm).symm
  · cases hm

theorem kind_of_mem_records (h : opening script k ∈ (asm settings script).records) :
    kind script = .ok k := by
  rw [records_asm] at h
  obtain h | h := List.mem_append.1 h
  · split at h
    · next l hl => rw [hl, opening_injective (List.mem_singleton.1 h)]
    · cases h
  · split at h
    · cases h
    · exact absurd (List.mem_singleton.1 h) opening_ne_failed

theorem openedFirst_of_kind (h : kind script = .ok k) :
    OpenedFirst (asm settings script).records script k := by
  rw [records_asm, h]
  refine ⟨_, rfl, fun other hm => ?_⟩
  split at hm
  · cases hm
  · exact opening_ne_failed (List.mem_singleton.1 hm)

theorem permissive_of_trailing {count : Int}
    (h : (asm settings script).value = .error (.trailing count)) :
    settings.allowTrailing = false ∧ ∃ text, (asm ⟨true⟩ script).value = .ok text := by
  cases hd : (decode script).value with
  | error e =>
    have he := h.symm.trans (asm_of_decode_error hd)
    exact absurd (Except.error.inj he).symm (decode_ne_trailing hd count)
  | ok p =>
    refine ⟨?_, p.asm.text, permissive_of_decode hd⟩
    rw [asm_of_decode hd, accept] at h
    split at h
    · cases h
    · next hn => exact Bool.eq_false_iff.2 fun ha => hn (.inr ha)

end Reported

def trailed : Bytes := [0x6a, 0x01, 0xff, 0x00]

/-- The kind is logged first wherever it is told. A failure is logged last, but for one: that of bytes behind
a script that did decode. -/
theorem failure_reported_last (settings : Settings) (script : Bytes) :
    (∀ text, ReportedLast (asm settings script).records script text ↔
      ∃ e, (asm settings script).value = .error e ∧ (∀ count, e ≠ .trailing count) ∧
        text = e.message) ∧
    (∀ text, failed script text ∈ (asm settings script).records →
      ReportedLast (asm settings script).records script text) ∧
    (∀ count, (asm settings script).value = .error (.trailing count) →
      settings.allowTrailing = false ∧ ∃ text, (asm ⟨true⟩ script).value = .ok text) ∧
    ∀ k, (OpenedFirst (asm settings script).records script k ↔ kind script = .ok k) ∧
      (opening script k ∈ (asm settings script).records ↔ kind script = .ok k) := by
  have hmem (text : String) (h : failed script text ∈ (asm settings script).records) :
      ReportedLast (asm settings script).records script text := by
    obtain ⟨e, hd, rfl⟩ := error_of_mem_records h
    exact reportedLast_of_error hd
  refine ⟨fun text => ⟨fun h => ?_, fun h => ?_⟩, hmem, fun count => permissive_of_trailing,
    fun k => ⟨⟨fun h => kind_of_mem_records h.mem, openedFirst_of_kind⟩, kind_of_mem_records,
      fun h => (openedFirst_of_kind h).mem⟩⟩
  · obtain ⟨e, hd, rfl⟩ := error_of_mem_records h.mem
    exact ⟨e, asm_of_decode_error hd, decode_ne_trailing hd, rfl⟩
  · obtain ⟨e, he, hn, rfl⟩ := h
    exact reportedLast_of_error ((asm_eq_error_iff_decode hn).1 he)

theorem trailing_not_reported :
    (asm {} trailed).value = .error (.trailing 1) ∧
      (asm {} trailed).records = [opening trailed .dataCarrier] ∧
      ¬ ReportedLast (asm {} trailed).records trailed (Failure.trailing 1).message := by
  have hr : (asm {} trailed).records = [opening trailed .dataCarrier] := by
    rfl
  refine ⟨rfl, hr, fun h => ?_⟩
  have hm := h.mem
  rw [hr] at hm
  exact opening_ne_failed (List.mem_singleton.1 hm).symm

end CoinWire.Script
