import CoinWire.Proofs.Script.Causes
import CoinWire.Proofs.Tx.Display

/-!
What the display of a transaction tells about the scripts of its outputs. An entry shows kind and assembly
together or else the failure alone, and no output that fails goes without its notice in the log. What can be
read has such a display.
-/

namespace CoinWire

namespace Logged

variable {α β : Type}

def recordsOf (a : Logged α) (source : Log.Source) : List Log.Record :=
  a.records.filter fun record => record.source = source

@[simp] theorem recordsOf_pure (a : α) (source : Log.Source) :
    (pure a : Logged α).recordsOf source = [] := rfl

@[simp] theorem recordsOf_bind (a : Logged α) (f : α → Logged β) (source : Log.Source) :
    (a >>= f).recordsOf source = a.recordsOf source ++ (f a.value).recordsOf source :=
  List.filter_append ..

end Logged

theorem Script.recordsOf_asm (settings : Settings) (script : Bytes) :
    (asm settings script).recordsOf .transaction = [] := by
  have hfailing (e : Failure) : (failing script e).recordsOf .transaction = [] := by
    rw [failing]
    split
    · rfl
    · rfl
  have hbeginning (k : Kind) : (beginning script k).recordsOf .transaction = [] := rfl
  have hdecode : (decode script).recordsOf .transaction = [] := by
    rw [decode]
    cases kind script with
    | error e => simp only [Logged.recordsOf_bind, Logged.recordsOf_pure, hfailing, List.append_nil]
    | ok k =>
      simp only [Logged.recordsOf_bind, hbeginning, List.nil_append]
      cases Decoder.ofKind k (.start script) with
      | ok _ p => rfl
      | error e p =>
        simp only [Logged.recordsOf_bind, Logged.recordsOf_pure, hfailing, List.append_nil]
  simp only [asm, assemble, Logged.recordsOf_bind, Logged.recordsOf_pure, hdecode, List.append_nil]

namespace Tx

namespace Output

/-- The entries that tell the truth about the script of an output. -/
inductive Shows (output : Output) : Json → Prop
  | standard {kind : Script.Kind} {text : String} (hk : output.kind = .ok kind)
      (ht : (output.asm {}).value = .ok text) :
      Shows output (.object [("amount", .number output.amount),
        ("scriptpubkey", .text (Hex.encode output.script)), ("type", .text kind.name),
        ("asm", .text text)])
  | other {e : Script.Failure} (he : (output.asm {}).value = .error e) (hd : e.isDecoding = true) :
      Shows output (.object [("amount", .number output.amount),
        ("scriptpubkey", .text (Hex.encode output.script)), ("error", .text e.message)])

def notices (output : Output) : List Log.Record :=
  match (output.asm {}).value with
  | .ok _ => []
  | .error e => [⟨.transaction,
      "Output script " ++ Hex.encode output.script ++ " is not standard: " ++ e.message⟩]

variable {output : Output}

/-- A script whose kind cannot be told has no assembly, for the same reason. -/
theorem standing_cases (output : Output) :
    (∃ kind text, output.kind = .ok kind ∧ (output.asm {}).value = .ok text ∧
      output.standing.value = .ok (kind, text)) ∨
    ∃ e, (output.asm {}).value = .error e ∧ output.standing.value = .error e := by
  cases hk : output.kind with
  | error e =>
    refine .inr ⟨e, Script.asm_of_kind_error hk, ?_⟩
    rw [standing, hk]
    rfl
  | ok kind =>
    have hstanding : output.standing.value = (output.asm {}).value.map fun text => (kind, text) := by
      rw [standing, hk]
      rfl
    rw [hstanding]
    cases ht : (output.asm {}).value with
    | error e => exact .inr ⟨e, rfl, rfl⟩
    | ok text => exact .inl ⟨kind, text, rfl, rfl, rfl⟩

theorem recordsOf_standing (output : Output) : output.standing.recordsOf .transaction = [] := by
  rw [standing]
  cases output.kind with
  | error e => rfl
  | ok kind =>
    simp only [Logged.recordsOf_bind, Logged.recordsOf_pure, List.append_nil]
    exact Script.recordsOf_asm {} output.script

theorem shows_display (output : Output) : output.Shows output.display.value := by
  obtain ⟨kind, text, hk, ht, hs⟩ | ⟨e, he, hs⟩ := output.standing_cases
  · simp only [display, Logged.value_bind, hs]
    exact .standard hk ht
  · have hd := Script.isDecoding_of_asm he
    simp only [display, Logged.value_bind, hs, if_pos hd]
    exact .other he hd

theorem recordsOf_display (output : Output) :
    output.display.recordsOf .transaction = output.notices := by
  rw [notices, display, Logged.recordsOf_bind, recordsOf_standing, List.nil_append]
  obtain ⟨kind, text, -, ht, hs⟩ | ⟨e, he, hs⟩ := output.standing_cases
  · rw [hs, ht]
    rfl
  · simp only [hs, he, if_pos (Script.isDecoding_of_asm he)]
    rfl

end Output

namespace Transaction

variable {tx : Transaction} {document : Json}

theorem shows_displayOutputs (outputs : List Output) :
    List.Forall₂ Output.Shows outputs (displayOutputs outputs).value ∧
      (displayOutputs outputs).recordsOf .transaction = outputs.flatMap Output.notices := by
  induction outputs with
  | nil => exact ⟨.nil, rfl⟩
  | cons output outputs ih =>
    obtain ⟨hshows, hnotices⟩ := ih
    simp only [displayOutputs, Logged.value_bind, Logged.value_pure, Logged.recordsOf_bind,
      Logged.recordsOf_pure, List.append_nil, List.flatMap_cons]
    rw [output.recordsOf_display, hnotices]
    exact ⟨.cons output.shows_display hshows, rfl⟩

theorem outputs_of_display (h : tx.display.value = .ok document) :
    ∃ fields entries, document = .object fields ∧ fields.lookup "outputs" = some (.array entries) ∧
      List.Forall₂ Output.Shows tx.outputs entries ∧
      tx.display.recordsOf .transaction = tx.outputs.flatMap Output.notices := by
  obtain ⟨hshows, hnotices⟩ := shows_displayOutputs tx.outputs
  rw [display, displayWith] at h ⊢
  cases hb : tx.stripped with
  | error e =>
    rw [hb] at h
    cases h
  | ok bytes =>
    simp only [hb, Logged.value_bind, Logged.value_pure] at h
    obtain ⟨witness, hw, rfl⟩ := map_eq_ok_iff.1 h
    refine ⟨_, (displayOutputs tx.outputs).value, rfl, rfl, hshows, ?_⟩
    simp only [Logged.recordsOf_bind, Logged.recordsOf_pure, List.append_nil, hnotices]

theorem displayed_of_ofBytes {bytes : Bytes} (h : (ofBytes bytes).value = .ok tx) :
    (∃ w, tx.encode = .ok w) ∧ (∃ hash, tx.txid = .ok hash) ∧ (∃ hash, tx.wtxid = .ok hash) ∧
      ∃ document, tx.display.value = .ok document ∧ tx.print.value = .ok document.print := by
  obtain ⟨w, rest, hw, -⟩ := ofBytes_eq_ok_iff.1 h
  obtain ⟨back, he⟩ := hw.exists_encode
  obtain ⟨bare, hb, -⟩ := stripped_of_encode he
  obtain ⟨fields, hd⟩ := display_of_encode he
  have htxid : tx.txid = .ok (Hash.hash256 bare) := map_eq_ok_iff.2 ⟨bare, hb, rfl⟩
  have hwtxid : tx.wtxid = .ok (Hash.hash256 back) := map_eq_ok_iff.2 ⟨back, he, rfl⟩
  exact ⟨⟨back, he⟩, ⟨_, htxid⟩, ⟨_, hwtxid⟩, _, hd, print_of_display hd⟩

/-- What is read can be displayed, and the display tells the truth about every script. -/
theorem display_truthful :
    (∀ bytes tx, (ofBytes bytes).value = .ok tx →
      (∃ w, tx.encode = .ok w) ∧ (∃ hash, tx.txid = .ok hash) ∧ (∃ hash, tx.wtxid = .ok hash) ∧
        ∃ document, tx.display.value = .ok document ∧ tx.print.value = .ok document.print) ∧
    (∀ output : Output, output.Shows output.display.value ∧
      output.display.recordsOf .transaction = output.notices) ∧
    ∀ (tx : Transaction) document, tx.display.value = .ok document →
      ∃ fields entries, document = .object fields ∧
        fields.lookup "outputs" = some (.array entries) ∧
        List.Forall₂ Output.Shows tx.outputs entries ∧
        tx.display.recordsOf .transaction = tx.outputs.flatMap Output.notices := by
  refine ⟨?_, ?_, ?_⟩
  · intro bytes tx h
    exact displayed_of_ofBytes h
  · intro output
    exact ⟨output.shows_display, output.recordsOf_display⟩
  · intro tx document h
    exact outputs_of_display h

end Transaction

end Tx

end CoinWire
