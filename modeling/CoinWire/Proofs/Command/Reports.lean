import CoinWire.Command
import CoinWire.Proofs.Messages
import CoinWire.Proofs.Tx.Display
import CoinWire.Proofs.Tx.Refusal

/-!
The command line against the library. Every list of arguments but the empty one either asks the library for
one text or lacks an argument, and what is reported is that text or the failure to get it. No text begins as
a report of a failure does, so the code and the beginning of the output tell the same.
-/

namespace CoinWire

/-- Only a length that no read can take is no failure of reading. -/
theorem Tx.Transaction.stream_of_ofHex_error {text : String} {e : Wire.Failure}
    (h : (ofHex text).value = .error e) (he : e ≠ .lengthOverflow) : Family.stream ∈ e.families := by
  obtain ⟨position, -, rfl⟩ | ⟨bytes, rest, -, hr⟩ := ofHex_eq_error_iff.1 h
  · exact List.mem_cons_self ..
  · have hread : Family.read ∈ e.families := refuses_read.read hr he
    cases e <;> first | exact List.mem_cons_self .. | cases hread

namespace Script

theorem Standard.head_tokens (s : Standard) :
    ∃ first more, s.tokens = first :: more ∧ first.toList.head? = some 'O' := by
  have hnumber (pre : String) (hp : pre.toList.head? = some 'O') (n : Nat) :
      (pre ++ toString n).toList.head? = some 'O' := by
    rw [String.toList_append, List.head?_append, hp]
    rfl
  cases s with
  | p2pk => exact ⟨_, _, rfl, hnumber "OP_PUSHBYTES_" rfl _⟩
  | multisig => exact ⟨_, _, rfl, hnumber "OP_" rfl _⟩
  | p2pkh | p2sh | p2wpkh | p2wsh | p2tr | dataCarrier => exact ⟨_, _, rfl, rfl⟩

theorem head_of_asm {settings : Settings} {script : Bytes} {text : String}
    (h : (asm settings script).value = .ok text) : text.toList.head? = some 'O' := by
  obtain ⟨done, hd, rfl⟩ := asm_eq_ok_iff_assemble.1 h
  obtain ⟨s, rest, hv, -, -, ht⟩ := assemble_eq_ok_iff.1 hd
  obtain ⟨first, more, hs, hf⟩ := s.head_tokens
  rw [Asm.text_eq_intercalate (ht ▸ hv.word), ht, hs, String.toList_intercalate, List.map_cons]
  cases hfirst : first.toList with
  | nil =>
    rw [hfirst] at hf
    cases hf
  | cons c cs =>
    rw [hfirst] at hf
    rw [List.intercalate_cons_cons_left]
    exact hf

end Script

namespace Command

/-- What a list of arguments can ask the library for. -/
inductive Request
  | transaction (text : String)
  | kind (text : String)
  | assembly (text : String)

namespace Request

def ofArgs? : List String → Option Request
  | [] => none
  | first :: rest =>
    if first = "--tx" then rest.head?.map transaction
    else if first = "--type" then rest.head?.map kind
    else some (assembly first)

def text : Request → String
  | transaction text | kind text | assembly text => text

def complaint : Request → String
  | transaction _ => "Transaction is not valid hex: "
  | kind _ | assembly _ => "Argument is not valid hex: "

def scriptOf (text : String) : Except Failure Bytes :=
  (Hex.decode text).mapError fun position => .script (.argumentNotHex position)

def answer (settings : Settings) : Request → Except Failure String
  | transaction text => do
    let tx ← (Tx.Transaction.ofHex text).value.mapError Failure.wire
    tx.print.value.mapError Failure.wire
  | kind text => do
    let script ← scriptOf text
    let kind ← (Script.kind script).mapError Failure.script
    pure kind.name
  | assembly text => do
    let script ← scriptOf text
    (Script.asm settings script).value.mapError Failure.script

end Request

/-- How an answer is reported, or the failure to get one. -/
def decided : Except Failure String → Except Failure Report
  | .ok text => .ok (line 0 text)
  | .error e => if isReported e then .ok (line 1 ("Error: " ++ e.message)) else .error e

section Run

variable (settings : Settings)

theorem value_report (args : List String) (result : Except Failure String) :
    (report args result).value = decided result := by
  cases result with
  | ok text => rfl
  | error e =>
    rw [report, decided]
    split
    · rfl
    · rfl

theorem value_transaction (text : String) :
    (transaction text).value = (Request.transaction text).answer settings := by
  rw [transaction, Request.answer, Logged.value_bind]
  cases (Tx.Transaction.ofHex text).value with
  | error e => rfl
  | ok tx => rfl

theorem kind_eq_answer (text : String) : kind text = (Request.kind text).answer settings := by
  rw [kind, Request.answer, scriptOfHex, Request.scriptOf]
  cases Hex.decode text with
  | error position => rfl
  | ok script =>
    simp only [Except.mapError, bind, Except.bind]
    cases hk : Script.kind script with
    | error e => rfl
    | ok k => rfl

theorem value_asm (text : String) :
    (asm settings text).value = (Request.assembly text).answer settings := by
  rw [asm, Request.answer, scriptOfHex, Request.scriptOf]
  cases Hex.decode text with
  | error position => rfl
  | ok script => rfl

variable {settings} {args : List String} {request : Request} {e : Failure}

theorem run_of_request (h : Request.ofArgs? args = some request) :
    (run settings args).value = decided (request.answer settings) := by
  unfold run
  split
  · cases h
  · cases h
  · cases h
  · obtain rfl := Option.some.inj h
    rw [Logged.value_bind, value_report, value_transaction settings]
  · obtain rfl := Option.some.inj h
    rw [value_report, kind_eq_answer settings]
  · next first rest h1 h2 h3 h4 =>
    have htx : first ≠ "--tx" := by
      intro hf
      cases rest with
      | nil => exact h1 hf rfl
      | cons text rest => exact h3 text rest hf rfl
    have htype : first ≠ "--type" := by
      intro hf
      cases rest with
      | nil => exact h2 hf rfl
      | cons text rest => exact h4 text rest hf rfl
    rw [Request.ofArgs?, if_neg htx, if_neg htype] at h
    obtain rfl := Option.some.inj h
    rw [Logged.value_bind, value_report, value_asm]

theorem run_of_no_request (settings : Settings) {first : String} {rest : List String}
    (h : Request.ofArgs? (first :: rest) = none) :
    ∃ message ∈ ["Missing transaction hex", "Missing script hex"],
      (run settings (first :: rest)).value = .ok ⟨1, "Error: " ++ message ++ "\n"⟩ := by
  rw [Request.ofArgs?] at h
  by_cases htx : first = "--tx"
  · subst htx
    cases rest with
    | nil => exact ⟨_, List.mem_cons_self .., rfl⟩
    | cons text rest => cases h
  · rw [if_neg htx] at h
    by_cases htype : first = "--type"
    · subst htype
      cases rest with
      | nil => exact ⟨_, List.mem_cons_of_mem _ (List.mem_cons_self ..), rfl⟩
      | cons text rest => cases h
    · rw [if_neg htype] at h
      cases h

theorem scriptOf_eq_error_iff {text : String} : Request.scriptOf text = .error e ↔
    ∃ position, Hex.decode text = .error position ∧ e = .script (.argumentNotHex position) := by
  exact mapError_eq_error_iff

theorem answer_transaction_eq_error_iff {text : String} :
    (Request.transaction text).answer settings = .error e ↔
      ∃ cause, (Tx.Transaction.ofHex text).value = .error cause ∧ e = .wire cause := by
  rw [Request.answer, bind_eq_error_iff, mapError_eq_error_iff]
  constructor
  · intro h
    obtain h | ⟨tx, htx, hp⟩ := h
    · exact h
    · obtain ⟨fields, hf⟩ := Tx.Transaction.print_of_ofHex (mapError_eq_ok_iff.1 htx)
      rw [hf] at hp
      cases hp
  · exact .inl

theorem script_of_answer_error {text : String} (hr : request = .kind text ∨ request = .assembly text)
    (h : request.answer settings = .error e) :
    ∃ cause : Script.Failure, e = .script cause ∧ cause.isDecoding = true ∧ cause.Plain := by
  have hscript (he : Request.scriptOf text = .error e) :
      ∃ cause : Script.Failure, e = .script cause ∧ cause.isDecoding = true ∧ cause.Plain := by
    obtain ⟨position, -, rfl⟩ := scriptOf_eq_error_iff.1 he
    exact ⟨_, rfl, rfl, trivial⟩
  rcases hr with rfl | rfl
  · obtain he | ⟨script, -, he⟩ := bind_eq_error_iff.1 h
    · exact hscript he
    · obtain he | ⟨k, -, he⟩ := bind_eq_error_iff.1 he
      · obtain ⟨cause, hc, rfl⟩ := mapError_eq_error_iff.1 he
        exact ⟨cause, rfl, Script.isDecoding_of_kind hc, Script.plain_of_kind hc⟩
      · cases he
  · obtain he | ⟨script, -, he⟩ := bind_eq_error_iff.1 h
    · exact hscript he
    · obtain ⟨cause, hc, rfl⟩ := mapError_eq_error_iff.1 he
      exact ⟨cause, rfl, Script.isDecoding_of_asm hc, Script.plain_of_asm hc⟩

theorem head_of_answer {text : String} (h : request.answer settings = .ok text) :
    text.toList.head? ≠ some 'E' := by
  have hne {c : Char} (hc : text.toList.head? = some c) (he : c ≠ 'E') :
      text.toList.head? ≠ some 'E' := by
    rw [hc]
    exact fun h => he (Option.some.inj h)
  cases request with
  | transaction hex =>
    obtain ⟨tx, htx, hp⟩ := bind_eq_ok_iff.1 h
    obtain ⟨fields, hf⟩ := Tx.Transaction.print_of_ofHex (mapError_eq_ok_iff.1 htx)
    obtain rfl := Except.ok.inj (hf.symm.trans (mapError_eq_ok_iff.1 hp))
    exact hne (Json.print_object fields) (by decide)
  | kind hex =>
    obtain ⟨script, -, h⟩ := bind_eq_ok_iff.1 h
    obtain ⟨k, -, h⟩ := bind_eq_ok_iff.1 h
    obtain rfl := Except.ok.inj h
    cases k <;> decide
  | assembly hex =>
    obtain ⟨script, -, h⟩ := bind_eq_ok_iff.1 h
    exact hne (Script.head_of_asm (mapError_eq_ok_iff.1 h)) (by decide)

theorem startsWith_error (message : String) :
    ("Error: " ++ message ++ "\n").startsWith "Error:" = true := by
  rw [String.startsWith_string_iff, String.toList_append, String.toList_append, List.append_assoc]
  exact ⟨' ' :: (message.toList ++ "\n".toList), rfl⟩

theorem not_startsWith_error {text : String} (h : text.toList.head? ≠ some 'E') :
    ¬ (text ++ "\n").startsWith "Error:" = true := by
  rw [String.startsWith_string_iff, String.toList_append]
  intro hp
  obtain ⟨rest, hr⟩ := hp
  have hhead := congrArg List.head? hr
  cases htext : text.toList with
  | nil =>
    rw [htext] at hhead
    cases hhead
  | cons c cs =>
    rw [htext] at hhead h
    exact h hhead.symm

theorem isReported_iff : isReported e = true ↔
    Family.script ∈ e.families ∨ Family.stream ∈ e.families := by
  simp [isReported]

theorem oneLine_of_answer_error (h : request.answer settings = .error e) : OneLine e.message := by
  cases request with
  | transaction text =>
    obtain ⟨cause, hc, rfl⟩ := answer_transaction_eq_error_iff.1 h
    exact (Tx.Transaction.plain_of_ofHex hc).oneLine
  | kind text =>
    obtain ⟨cause, rfl, -, hp⟩ := script_of_answer_error (.inl rfl) h
    exact hp.oneLine
  | assembly text =>
    obtain ⟨cause, rfl, -, hp⟩ := script_of_answer_error (.inr rfl) h
    exact hp.oneLine

/-- Only a transaction with a length that no read can take ends in a failure that is not reported. -/
theorem unreported_iff : (request.answer settings = .error e ∧ isReported e = false) ↔
    e = .wire .lengthOverflow ∧ ∃ text, request = .transaction text ∧
      (Tx.Transaction.ofHex text).value = .error .lengthOverflow := by
  constructor
  · intro h
    obtain ⟨h, hr⟩ := h
    have hscript (hs : ∃ cause : Script.Failure, e = .script cause ∧ cause.isDecoding = true ∧
        cause.Plain) : False := by
      obtain ⟨cause, rfl, hd, -⟩ := hs
      have hreported : isReported (.script cause) = true :=
        isReported_iff.2 (.inl (List.contains_iff_mem.1 hd))
      cases hr.symm.trans hreported
    cases request with
    | transaction text =>
      obtain ⟨cause, hc, rfl⟩ := answer_transaction_eq_error_iff.1 h
      by_cases hl : cause = .lengthOverflow
      · subst hl
        exact ⟨rfl, text, rfl, hc⟩
      · have hreported : isReported (.wire cause) = true :=
          isReported_iff.2 (.inr (Tx.Transaction.stream_of_ofHex_error hc hl))
        cases hr.symm.trans hreported
    | kind text => exact (hscript (script_of_answer_error (.inl rfl) h)).elim
    | assembly text => exact (hscript (script_of_answer_error (.inr rfl) h)).elim
  · intro h
    obtain ⟨rfl, text, rfl, hl⟩ := h
    exact ⟨answer_transaction_eq_error_iff.2 ⟨_, hl, rfl⟩, rfl⟩

theorem answer_of_not_hex {position : Nat} (h : Hex.decode request.text = .error position) :
    ∃ e, request.answer settings = .error e ∧ isReported e = true ∧
      e.message = request.complaint ++ Hex.fault position := by
  have hscript {text : String} (ht : Hex.decode text = .error position) :
      Request.scriptOf text = .error (.script (.argumentNotHex position)) :=
    scriptOf_eq_error_iff.2 ⟨position, ht, rfl⟩
  cases request with
  | transaction text =>
    have hx : (Tx.Transaction.ofHex text).value = .error (.transactionNotHex position) :=
      Tx.Transaction.ofHex_eq_error_iff.2 (.inl ⟨position, h, rfl⟩)
    exact ⟨_, answer_transaction_eq_error_iff.2 ⟨_, hx, rfl⟩, rfl, rfl⟩
  | kind text => exact ⟨_, bind_eq_error_iff.2 (.inl (hscript h)), rfl, rfl⟩
  | assembly text => exact ⟨_, bind_eq_error_iff.2 (.inl (hscript h)), rfl, rfl⟩

theorem run_of_answer {text : String} (h : Request.ofArgs? args = some request)
    (ha : request.answer settings = .ok text) :
    (run settings args).value = .ok ⟨0, text ++ "\n"⟩ := by
  rw [run_of_request h, ha]
  rfl

theorem run_of_answer_error (h : Request.ofArgs? args = some request)
    (ha : request.answer settings = .error e) (hr : isReported e = true) :
    (run settings args).value = .ok ⟨1, "Error: " ++ e.message ++ "\n"⟩ := by
  rw [run_of_request h, ha, decided, if_pos hr]
  rfl

theorem ofArgs?_eq_transaction_iff {text : String} :
    Request.ofArgs? args = some (.transaction text) ↔ ∃ rest, args = "--tx" :: text :: rest := by
  constructor
  · intro h
    cases args with
    | nil => cases h
    | cons first rest =>
      rw [Request.ofArgs?] at h
      split at h
      · next htx =>
        cases rest with
        | nil => cases h
        | cons second rest =>
          obtain rfl := Request.transaction.inj (Option.some.inj h)
          exact ⟨rest, by rw [htx]⟩
      · split at h
        · cases rest with
          | nil => cases h
          | cons second rest => cases h
        · cases h
  · intro h
    obtain ⟨rest, rfl⟩ := h
    rfl

theorem run_eq_error_iff {first : String} {rest : List String} :
    (run settings (first :: rest)).value = .error e ↔ e = .wire .lengthOverflow ∧
      ∃ text more, first :: rest = "--tx" :: text :: more ∧
        (Tx.Transaction.ofHex text).value = .error .lengthOverflow := by
  cases hr : Request.ofArgs? (first :: rest) with
  | none =>
    obtain ⟨message, -, hrun⟩ := run_of_no_request settings hr
    rw [hrun]
    constructor
    · nofun
    · intro h
      obtain ⟨-, text, more, ha, -⟩ := h
      rw [ha] at hr
      cases hr
  | some request =>
    have herror : decided (request.answer settings) = .error e ↔
        request.answer settings = .error e ∧ isReported e = false := by
      cases request.answer settings with
      | ok text => simp [decided]
      | error e' =>
        by_cases he : isReported e' = true
        · simp only [decided, if_pos he, reduceCtorEq, Except.error.injEq, false_iff, not_and]
          rintro rfl
          simp [he]
        · simp only [decided, if_neg he, Except.error.injEq]
          constructor
          · rintro rfl
            exact ⟨rfl, Bool.eq_false_iff.2 he⟩
          · exact And.left
    have hargs (text : String) :
        request = .transaction text ↔ ∃ more, first :: rest = "--tx" :: text :: more := by
      rw [← ofArgs?_eq_transaction_iff, hr, Option.some.injEq]
    rw [run_of_request hr, herror, unreported_iff]
    simp only [hargs, exists_and_right]

theorem code_of_run {first : String} {rest : List String} {report : Report}
    (h : (run settings (first :: rest)).value = .ok report) :
    report.code = 1 ↔ report.output.startsWith "Error:" = true := by
  have herror (message : String) (he : (run settings (first :: rest)).value =
      .ok ⟨1, "Error: " ++ message ++ "\n"⟩) :
      report.code = 1 ↔ report.output.startsWith "Error:" = true := by
    obtain rfl := Except.ok.inj (h.symm.trans he)
    exact iff_of_true rfl (startsWith_error message)
  cases hr : Request.ofArgs? (first :: rest) with
  | none =>
    obtain ⟨message, -, hrun⟩ := run_of_no_request settings hr
    exact herror message hrun
  | some request =>
    cases ha : request.answer settings with
    | ok text =>
      obtain rfl := Except.ok.inj (h.symm.trans (run_of_answer hr ha))
      exact iff_of_false nofun (not_startsWith_error (head_of_answer ha))
    | error e =>
      by_cases he : isReported e = true
      · exact herror e.message (run_of_answer_error hr ha he)
      · rw [run_of_request hr, ha, decided, if_neg he] at h
        cases h

end Run

/-- An outcome that says what the library decides about the arguments. -/
structure Faithful (settings : Settings) (args : List String) (outcome : Except Failure Report) :
    Prop where
  answered {request text} : Request.ofArgs? args = some request →
    request.answer settings = .ok text → outcome = .ok ⟨0, text ++ "\n"⟩
  failed {request e} : Request.ofArgs? args = some request → request.answer settings = .error e →
    Family.script ∈ e.families ∨ Family.stream ∈ e.families →
    outcome = .ok ⟨1, "Error: " ++ e.message ++ "\n"⟩ ∧ OneLine e.message
  notHex {request position} : Request.ofArgs? args = some request →
    Hex.decode request.text = .error position →
    outcome = .ok ⟨1, "Error: " ++ (request.complaint ++ Hex.fault position) ++ "\n"⟩
  missing : Request.ofArgs? args = none →
    ∃ message ∈ ["Missing transaction hex", "Missing script hex"],
      outcome = .ok ⟨1, "Error: " ++ message ++ "\n"⟩
  raised {e} : outcome = .error e ↔ e = .wire .lengthOverflow ∧ ∃ text rest,
    args = "--tx" :: text :: rest ∧ (Tx.Transaction.ofHex text).value = .error .lengthOverflow
  code {report} : outcome = .ok report →
    (report.code = 1 ↔ report.output.startsWith "Error:" = true)

/-- The command line reports what the library decides, and the setting matters only to the assembly of a
script. -/
theorem run_faithful (setting : Option String) (first : String) (rest : List String) :
    Faithful (.ofVariable setting) (first :: rest)
      (run (.ofVariable setting) (first :: rest)).value ∧
    (first = "--tx" ∨ first = "--type" → ∀ other : Option String,
      (run (.ofVariable other) (first :: rest)).value =
        (run (.ofVariable setting) (first :: rest)).value) := by
  constructor
  · constructor
    · exact run_of_answer
    · intro request e h ha hf
      exact ⟨run_of_answer_error h ha (isReported_iff.2 hf), oneLine_of_answer_error ha⟩
    · intro request position h hd
      obtain ⟨e, ha, hr, hm⟩ := answer_of_not_hex hd
      rw [← hm]
      exact run_of_answer_error h ha hr
    · exact run_of_no_request _
    · intro e
      exact run_eq_error_iff
    · intro report hr
      exact code_of_run hr
  · intro hflag other
    rcases hflag with rfl | rfl
    · cases rest with
      | nil => rfl
      | cons text rest => rfl
    · cases rest with
      | nil => rfl
      | cons text rest => rfl

end Command

end CoinWire
