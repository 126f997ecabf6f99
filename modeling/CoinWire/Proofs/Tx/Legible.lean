import CoinWire.Proofs.Text.Document
import CoinWire.Proofs.Tx.Entries

/-!
The display of a transaction shows all of it. Of its parts, an input, an output and a witness each show every
field, whichever of the two entries an output has; and whether witnesses are shown is itself shown. What the
names are hashed with plays no role: everything else is there beside them.
-/

namespace CoinWire

theorem Hex.encode_injective : Function.Injective encode := by
  intro a b h
  have hback := congrArg decode h
  rw [decode_encode, decode_encode] at hback
  exact Except.ok.inj hback

namespace Tx

theorem Input.display_injective : Function.Injective Input.display := by
  intro a b h
  simp only [Input.display, Json.object.injEq, List.cons.injEq, Prod.mk.injEq, Json.text.injEq,
    Json.number.injEq, true_and, and_true] at h
  obtain ⟨htxid, hvout, hscript, hsequence⟩ := h
  obtain ⟨txid, vout, script, sequence⟩ := a
  obtain rfl := List.reverse_injective (Hex.encode_injective htxid)
  obtain rfl := Hex.encode_injective hscript
  obtain rfl : vout = b.vout := hvout
  obtain rfl : sequence = b.sequence := hsequence
  rfl

namespace Output

theorem exists_display (output : Output) : ∃ standing, output.display.value =
    .object (("amount", .number output.amount) :: ("scriptpubkey", .text (Hex.encode output.script)) ::
      standing) := by
  generalize hd : output.display.value = document
  have hshows : output.Shows document := hd ▸ output.shows_display
  cases hshows with
  | standard => exact ⟨_, rfl⟩
  | other => exact ⟨_, rfl⟩

theorem display_value_injective : Function.Injective fun output : Output => output.display.value := by
  intro a b h
  obtain ⟨standing, ha⟩ := a.exists_display
  obtain ⟨standing', hb⟩ := b.exists_display
  simp only [ha, hb, Json.object.injEq, List.cons.injEq, Prod.mk.injEq, Json.number.injEq,
    Json.text.injEq, true_and] at h
  obtain ⟨hamount, hscript, -⟩ := h
  obtain ⟨amount, script⟩ := a
  obtain rfl := Hex.encode_injective hscript
  obtain rfl : amount = b.amount := hamount
  rfl

end Output

theorem Witness.display_injective : Function.Injective Witness.display := by
  intro a b h
  simp only [Witness.display, Json.object.injEq, List.cons.injEq, Prod.mk.injEq, Json.array.injEq,
    true_and, and_true] at h
  have hitem : Function.Injective fun item : Bytes => Json.text (Hex.encode item) := by
    intro item item' he
    exact Hex.encode_injective (Json.text.inj he)
  obtain ⟨items⟩ := a
  obtain rfl := List.map_injective_iff.2 hitem h
  rfl

namespace Transaction

variable {hash : Bytes → Bytes} {tx a b : Transaction} {document : Json} {s t : String}

theorem value_displayOutputs (outputs : List Output) :
    (displayOutputs outputs).value = outputs.map fun output => output.display.value := by
  induction outputs with
  | nil => rfl
  | cons output outputs ih =>
    simp only [displayOutputs, Logged.value_bind, Logged.value_pure, ih, List.map_cons]

/-- The fields of a display, behind the name and up to where witnesses may stand. -/
def shared (tx : Transaction) : List (String × Json) :=
  [("version", .number tx.version), ("standard_version", .bool (standardVersions.contains tx.version)),
    ("is_segwit", .bool tx.hasWitness), ("inputs", .array (tx.inputs.map Input.display)),
    ("outputs", .array (tx.outputs.map fun output => output.display.value))]

def witnessFields (name : Json) (tx : Transaction) : List (String × Json) :=
  if tx.hasWitness then [("wtxid", name), ("witness", .array (tx.witness.map Witness.display))] else []

theorem displayWitness_eq_ok {fields : List (String × Json)} (h : displayWitness hash tx = .ok fields) :
    ∃ name, fields = tx.witnessFields name := by
  rw [displayWitness] at h
  cases hn : tx.hasWitness with
  | false =>
    rw [hn] at h
    obtain rfl := Except.ok.inj h
    exact ⟨displayHash hash [], by rw [witnessFields, hn]; rfl⟩
  | true =>
    rw [hn] at h
    obtain ⟨bytes, -, hfields⟩ := bind_eq_ok_iff.1 h
    obtain rfl := Except.ok.inj hfields
    exact ⟨displayHash hash bytes, by rw [witnessFields, hn]; rfl⟩

theorem displayWith_eq_ok (h : (tx.displayWith hash).value = .ok document) :
    ∃ txid wtxid, document = .object (("txid", txid) :: (tx.shared ++
      (tx.witnessFields wtxid ++ [("locktime", .number tx.locktime)]))) := by
  rw [displayWith] at h
  cases hb : tx.stripped with
  | error e =>
    rw [hb] at h
    cases h
  | ok bytes =>
    simp only [hb, Logged.value_bind, Logged.value_pure, value_displayOutputs] at h
    obtain ⟨fields, hfields, rfl⟩ := map_eq_ok_iff.1 h
    obtain ⟨name, rfl⟩ := displayWitness_eq_ok hfields
    exact ⟨displayHash hash bytes, name, rfl⟩

theorem displayWith_injective (ha : (a.displayWith hash).value = .ok document)
    (hb : (b.displayWith hash).value = .ok document) : a = b := by
  obtain ⟨_, name, rfl⟩ := displayWith_eq_ok ha
  obtain ⟨_, name', hdocument⟩ := displayWith_eq_ok hb
  obtain ⟨hshared, hrest⟩ := List.append_inj (List.cons.inj (Json.object.inj hdocument)).2 rfl
  simp only [shared, List.cons.injEq, Prod.mk.injEq, Json.number.injEq, Json.bool.injEq,
    Json.array.injEq, true_and, and_true] at hshared
  obtain ⟨hversion, -, hsegwit, hinputs, houtputs⟩ := hshared
  obtain ⟨hfields, hlocktime⟩ := List.append_inj' hrest rfl
  have hwitness : a.witness = b.witness := by
    rw [witnessFields, witnessFields, ← hsegwit] at hfields
    split at hfields
    · simp only [List.cons.injEq, Prod.mk.injEq, Json.array.injEq, true_and, and_true] at hfields
      exact List.map_injective_iff.2 Witness.display_injective hfields.2
    · next hn =>
      have hna := Bool.eq_false_iff.2 hn
      rw [hasWitness_eq_false_iff.1 hna, hasWitness_eq_false_iff.1 (hsegwit ▸ hna)]
  simp only [List.cons.injEq, Prod.mk.injEq, Json.number.injEq, true_and, and_true] at hlocktime
  obtain ⟨version, inputs, outputs, witness, locktime⟩ := a
  obtain rfl := List.map_injective_iff.2 Input.display_injective hinputs
  obtain rfl := List.map_injective_iff.2 Output.display_value_injective houtputs
  obtain rfl : version = b.version := hversion
  obtain rfl : witness = b.witness := hwitness
  obtain rfl : locktime = b.locktime := hlocktime
  rfl

/-- Two transactions are displayed alike only if all their fields are equal, whatever function it is with
which they are hashed. -/
theorem print_eq_iff (ha : (a.printWith hash).value = .ok s) (hb : (b.printWith hash).value = .ok t) :
    s = t ↔ a = b := by
  constructor
  · intro hst
    obtain ⟨document, hda, rfl⟩ := map_eq_ok_iff.1 ha
    obtain ⟨document', hdb, rfl⟩ := map_eq_ok_iff.1 hb
    obtain rfl := Json.print_injective hst
    exact displayWith_injective hda hdb
  · intro hab
    subst hab
    exact Except.ok.inj (ha.symm.trans hb)

theorem print_eq_iff_overfull : ∃ s t, (overfull.printWith id).value = .ok s ∧
    (least.printWith id).value = .ok t ∧ s ≠ t := by
  have hne : overfull ≠ least := by
    decide
  refine ⟨_, _, rfl, rfl, ?_⟩
  intro hst
  exact hne ((print_eq_iff rfl rfl).1 hst)

end Transaction

end Tx

end CoinWire
