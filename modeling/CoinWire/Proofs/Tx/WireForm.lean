import CoinWire.Proofs.Tx.Parts

/-!
The two wire forms of a transaction, and that nothing else is read as one. Behind the version stands either
marker, flag and body, with a witness for each input, or the body alone, with an input at least and no
witness. The first byte of the body tells whether there are inputs, and so the two forms apart.
-/

namespace CoinWire.Tx.Transaction

open Wire
open Wire.Reader (Takes takes_pure takes_throw)

structure Readable (tx : Transaction) : Prop where
  inputs : ∀ input ∈ tx.inputs, input.Readable
  outputs : ∀ output ∈ tx.outputs, output.Readable
  witness : ∀ witness ∈ tx.witness, witness.Readable

/-- All that follows the version, marker and flag apart. -/
def Body (tx : Transaction) (w : Bytes) : Prop :=
  ∃ inputs outputs witness locktime, tx.encodeInputs = .ok inputs ∧ tx.encodeOutputs = .ok outputs ∧
    tx.witness.mapM Witness.encode = .ok witness ∧ Number.encode 4 tx.locktime = .ok locktime ∧
    w = inputs ++ outputs ++ witness.flatten ++ locktime

theorem encodeInputs_eq_ok_iff {tx : Transaction} {w : Bytes} :
    tx.encodeInputs = .ok w ↔ ∃ count inputs, CompactSize.encode tx.inputs.length = .ok count ∧
      tx.inputs.mapM Input.encode = .ok inputs ∧ w = count ++ inputs.flatten := by
  simp only [encodeInputs, bind_eq_ok_iff, pure_eq_ok_iff, exists_and_left]

theorem encodeOutputs_eq_ok_iff {tx : Transaction} {w : Bytes} :
    tx.encodeOutputs = .ok w ↔ ∃ count outputs, CompactSize.encode tx.outputs.length = .ok count ∧
      tx.outputs.mapM Output.encode = .ok outputs ∧ w = count ++ outputs.flatten := by
  simp only [encodeOutputs, bind_eq_ok_iff, pure_eq_ok_iff, exists_and_left]

theorem encode_eq_ok_iff {tx : Transaction} {w : Bytes} :
    tx.encode = .ok w ↔ ∃ version body, Number.encode 4 tx.version = .ok version ∧ tx.Body body ∧
      w = version ++ (if tx.hasWitness then [0, 1] else []) ++ body := by
  simp only [encode, bind_eq_ok_iff, pure_eq_ok_iff]
  constructor
  · intro h
    obtain ⟨version, hv, inputs, hi, outputs, ho, witness, hw, locktime, hl, rfl⟩ := h
    refine ⟨version, _, hv, ⟨inputs, outputs, witness, locktime, hi, ho, hw, hl, rfl⟩, ?_⟩
    simp only [List.append_assoc]
  · intro h
    obtain ⟨version, _, hv, ⟨inputs, outputs, witness, locktime, hi, ho, hw, hl, rfl⟩, rfl⟩ := h
    refine ⟨version, hv, inputs, hi, outputs, ho, witness, hw, locktime, hl, ?_⟩
    simp only [List.append_assoc]

theorem hasWitness_eq_true_iff {tx : Transaction} : tx.hasWitness = true ↔ tx.witness ≠ [] := by
  simp [hasWitness]

theorem hasWitness_eq_false_iff {tx : Transaction} : tx.hasWitness = false ↔ tx.witness = [] := by
  simp [hasWitness]

/-- A body starts with zero only where there is no input. -/
theorem Body.head {tx : Transaction} {w : Bytes} (h : tx.Body w) :
    ∃ first tail, w = first :: tail ∧ (first = 0 ↔ tx.inputs = []) := by
  obtain ⟨inputs, outputs, witness, locktime, hi, -, -, -, rfl⟩ := h
  obtain ⟨count, parts, hc, -, rfl⟩ := encodeInputs_eq_ok_iff.1 hi
  obtain ⟨first, tail, rfl, hz⟩ := CompactSize.encode_head hc
  refine ⟨first, _, rfl, ?_⟩
  rw [hz, List.length_eq_zero_iff]

def readWitness (segwit : Bool) (count : Nat) : Reader (List Witness) :=
  if segwit then Reader.many count Witness.read else pure []

def readBody (version : Nat) (segwit : Bool) : Reader Transaction := do
  let inputCount ← CompactSize.read
  let inputs ← Reader.many inputCount Input.read
  let outputCount ← CompactSize.read
  let outputs ← Reader.many outputCount Output.read
  let witness ← readWitness segwit inputCount
  let locktime ← Number.read 4 "locktime"
  pure { version, inputs, outputs, witness, locktime }

theorem read_eq : read = (do
    let version ← Number.read 4 "version"
    let segwit ← readMarker
    readBody version segwit) := by
  rw [read]
  congr 1
  funext version
  congr 1
  funext segwit
  cases segwit with
  | true => rfl
  | false => rfl

theorem takes_readWitness (segwit : Bool) (count : Nat) :
    Takes (readWitness segwit count) fun witness w =>
      (∀ it ∈ witness, it.Readable) ∧ witness.length = (if segwit then count else 0) ∧
        ∃ ws, witness.mapM Witness.encode = .ok ws ∧ w = ws.flatten := by
  cases segwit with
  | true =>
    refine (Witness.takes_read.many_encoded count).congr fun witness w => ?_
    exact and_left_comm
  | false =>
    refine (takes_pure []).congr fun witness w => ?_
    constructor
    · intro h
      obtain ⟨rfl, rfl⟩ := h
      exact ⟨by simp, rfl, [], rfl, rfl⟩
    · intro h
      obtain ⟨-, hl, ws, hws, rfl⟩ := h
      obtain rfl := List.length_eq_zero_iff.1 hl
      obtain rfl := pure_eq_ok_iff.1 hws
      exact ⟨rfl, rfl⟩

theorem takes_readBody (version : Nat) (segwit : Bool) :
    Takes (readBody version segwit) fun tx w => tx.Readable ∧ tx.Body w ∧ tx.version = version ∧
      tx.witness.length = if segwit then tx.inputs.length else 0 := by
  refine (CompactSize.takes_counted Input.takes_read fun inputCount inputs =>
    CompactSize.takes_counted Output.takes_read fun _ outputs =>
    (takes_readWitness segwit inputCount).bind fun witness =>
    (Number.takes_read 4 (by decide) "locktime").bind fun locktime =>
    takes_pure (Transaction.mk version inputs outputs witness locktime)).congr fun tx w => ?_
  constructor
  · intro h
    obtain ⟨inputs, ci, wi, _, hri, hci, hi, h, rfl⟩ := h
    obtain ⟨outputs, co, wo, _, hro, hco, ho, h, rfl⟩ := h
    obtain ⟨witness, _, _, ⟨hrw, hlen, ws, hws, rfl⟩, h, rfl⟩ := h
    obtain ⟨locktime, wl, _, hl, ⟨rfl, rfl⟩, rfl⟩ := h
    refine ⟨⟨hri, hro, hrw⟩, ⟨ci ++ wi.flatten, co ++ wo.flatten, ws, wl, ?_, ?_, hws, hl, ?_⟩,
      rfl, hlen⟩
    · exact encodeInputs_eq_ok_iff.2 ⟨ci, wi, hci, hi, rfl⟩
    · exact encodeOutputs_eq_ok_iff.2 ⟨co, wo, hco, ho, rfl⟩
    · simp only [List.append_assoc, List.append_nil]
  · intro h
    obtain ⟨hr, ⟨_, _, ws, wl, hinputs, houtputs, hws, hl, rfl⟩, hv, hlen⟩ := h
    obtain ⟨ci, wi, hci, hi, rfl⟩ := encodeInputs_eq_ok_iff.1 hinputs
    obtain ⟨co, wo, hco, ho, rfl⟩ := encodeOutputs_eq_ok_iff.1 houtputs
    obtain ⟨locktime, hlocktime, -⟩ := Number.encode_ok hl
    rw [hlocktime] at hl
    refine ⟨tx.inputs, ci, wi, _, hr.inputs, hci, hi, ⟨tx.outputs, co, wo, _, hr.outputs, hco, ho,
      ⟨tx.witness, ws.flatten, _, ⟨hr.witness, hlen, ws, hws, rfl⟩,
        ⟨locktime, wl, [], hl, ⟨?_, rfl⟩, rfl⟩, rfl⟩, rfl⟩, ?_⟩
    · rw [← hv, ← hlocktime]
    · simp only [List.append_assoc, List.append_nil]

theorem byte_eq_ofNat {first : Nat} {w : Bytes} (h : Number.encode 1 first = .ok w) :
    w = [UInt8.ofNat first] ∧ first < 256 := by
  obtain ⟨m, hm, hlt, rfl⟩ := Number.encode_ok h
  obtain rfl := Int.ofNat_inj.1 hm
  exact ⟨rfl, hlt⟩

theorem takes_readFlag : Takes (do
    let flag ← Number.read 1 "flag"
    if flag = 1 then pure true else throw (.segwitFlag flag))
    fun segwit w => segwit = true ∧ w = [1] := by
  refine ((Number.takes_read 1 (by decide) "flag").bind fun flag =>
    (takes_pure true).ite (takes_throw _)).congr fun segwit w => ?_
  constructor
  · intro h
    obtain ⟨flag, _, _, hu, hv, rfl⟩ := h
    split at hv
    · next hf =>
      obtain ⟨rfl, rfl⟩ := hv
      obtain ⟨rfl, -⟩ := byte_eq_ofNat hu
      exact ⟨rfl, by rw [hf]; rfl⟩
    · exact hv.elim
  · intro h
    obtain ⟨rfl, rfl⟩ := h
    exact ⟨1, [1], [], rfl, ⟨rfl, rfl⟩, rfl⟩

/-- The marker is consumed only with its flag. Where a byte other than zero is next, nothing is. -/
theorem readMarker_eq_ok_iff {unread rest : Bytes} {segwit : Bool} :
    readMarker unread = .ok segwit rest ↔
      (segwit = true ∧ unread = 0 :: 1 :: rest) ∨
        (segwit = false ∧ rest = unread ∧ ∃ first tail, first ≠ 0 ∧ unread = first :: tail) := by
  have hget : (get : Reader Bytes) unread = .ok unread unread := rfl
  have hfirst := Number.takes_read 1 (by decide) "marker or input count"
  rw [readMarker, run_bind_eq_ok_iff]
  constructor
  · intro h
    obtain ⟨before, between, hb, h⟩ := h
    obtain ⟨rfl, rfl⟩ := EStateM.Result.ok.inj (hget.symm.trans hb)
    obtain ⟨first, behind, hf, h⟩ := run_bind_eq_ok_iff.1 h
    obtain ⟨w, hw, rfl⟩ := (hfirst _ _ _).1 hf
    obtain ⟨rfl, hlt⟩ := byte_eq_ofNat hw
    split at h
    · next hz =>
      obtain ⟨v, ⟨rfl, rfl⟩, rfl⟩ := (takes_readFlag _ _ _).1 h
      exact .inl ⟨rfl, by rw [hz]; rfl⟩
    · -- the byte looked at is still unread
      next hz =>
      obtain ⟨rfl, rfl⟩ := EStateM.Result.ok.inj h
      refine .inr ⟨rfl, rfl, _, behind, ?_, rfl⟩
      intro h0
      have h1 := congrArg UInt8.toNat h0
      rw [UInt8.toNat_ofNat_of_lt' (by simpa only [UInt8.size] using hlt)] at h1
      exact hz h1
  · intro h
    refine ⟨unread, unread, hget, run_bind_eq_ok_iff.2 ?_⟩
    obtain ⟨rfl, rfl⟩ | ⟨rfl, rfl, first, tail, hz, rfl⟩ := h
    · exact ⟨0, 1 :: rest, hfirst.append (w := [0]) rfl (1 :: rest),
        takes_readFlag.append (w := [1]) ⟨rfl, rfl⟩ rest⟩
    · have hw : Number.encode 1 first.toNat = .ok [first] := by
        rw [Number.encode_ofNat first.toNat_lt]
        simp [toLittle]
      have hne : ¬ first.toNat = 0 := fun h0 => hz (UInt8.toNat_inj.1 h0)
      refine ⟨first.toNat, tail, hfirst.append hw tail, ?_⟩
      rw [if_neg hne]
      rfl

/-- The bytes of which `tx` is what is read. -/
def WireForm (tx : Transaction) (w : Bytes) : Prop :=
  tx.Readable ∧ ∃ version body, Number.encode 4 tx.version = .ok version ∧ tx.Body body ∧
    ((tx.witness.length = tx.inputs.length ∧ w = version ++ 0 :: 1 :: body) ∨
      (tx.witness = [] ∧ tx.inputs ≠ [] ∧ w = version ++ body))

/-- Although one byte is looked at before the form is known, reading a transaction takes a wire form and
does not depend on what follows it. -/
theorem takes_read : Takes read WireForm := by
  intro unread tx rest
  have hversion := Number.takes_read 4 (by decide) "version"
  rw [read_eq, run_bind_eq_ok_iff]
  constructor
  · intro h
    obtain ⟨version, between, hv, h⟩ := h
    obtain ⟨wv, hwv, rfl⟩ := (hversion _ _ _).1 hv
    obtain ⟨segwit, behind, hm, h⟩ := run_bind_eq_ok_iff.1 h
    obtain ⟨body, ⟨hr, hbody, hn, hlen⟩, rfl⟩ := (takes_readBody _ _ _ _ _).1 h
    rw [← hn] at hwv
    obtain ⟨rfl, rfl⟩ | ⟨rfl, rfl, first, tail, hz, hft⟩ := readMarker_eq_ok_iff.1 hm
    · refine ⟨wv ++ 0 :: 1 :: body, ⟨hr, wv, body, hwv, hbody, .inl ⟨hlen, rfl⟩⟩, ?_⟩
      simp only [List.append_assoc, List.cons_append]
    · obtain ⟨head, others, rfl, hh⟩ := hbody.head
      obtain ⟨rfl, -⟩ := List.cons.inj hft
      refine ⟨wv ++ head :: others, ⟨hr, wv, _, hwv, hbody, .inr ⟨?_, ?_, rfl⟩⟩, ?_⟩
      · exact List.length_eq_zero_iff.1 hlen
      · exact fun hi => hz (hh.2 hi)
      · rw [List.append_assoc]
  · intro h
    obtain ⟨_, ⟨hr, wv, body, hwv, hbody, hform⟩, rfl⟩ := h
    obtain ⟨version, hn, -⟩ := Number.encode_ok hwv
    rw [hn] at hwv
    have hreadBody (segwit : Bool)
        (hlen : tx.witness.length = if segwit then tx.inputs.length else 0) :
        readBody version segwit (body ++ rest) = .ok tx rest :=
      (takes_readBody version segwit).append ⟨hr, hbody, hn, hlen⟩ rest
    obtain ⟨hlen, rfl⟩ | ⟨hwitness, hinputs, rfl⟩ := hform
    · refine ⟨version, 0 :: 1 :: (body ++ rest), ?_,
        run_bind_eq_ok_iff.2 ⟨true, body ++ rest, ?_, ?_⟩⟩
      · rw [List.append_assoc]
        exact hversion.append hwv _
      · exact readMarker_eq_ok_iff.2 (.inl ⟨rfl, rfl⟩)
      · exact hreadBody true hlen
    · refine ⟨version, body ++ rest, ?_, run_bind_eq_ok_iff.2 ⟨false, body ++ rest, ?_, ?_⟩⟩
      · rw [List.append_assoc]
        exact hversion.append hwv _
      · obtain ⟨first, tail, rfl, hz⟩ := hbody.head
        exact readMarker_eq_ok_iff.2 (.inr ⟨rfl, rfl, first, tail ++ rest, mt hz.1 hinputs, rfl⟩)
      · refine hreadBody false ?_
        rw [hwitness]
        rfl

variable {tx : Transaction} {w : Bytes}

theorem WireForm.encode_eq (h : tx.WireForm w) (hi : tx.inputs ≠ []) : tx.encode = .ok w := by
  obtain ⟨-, version, body, hv, hbody, hform⟩ := h
  refine encode_eq_ok_iff.2 ⟨version, body, hv, hbody, ?_⟩
  obtain ⟨hlen, rfl⟩ | ⟨hw, -, rfl⟩ := hform
  · have hne : tx.witness ≠ [] := by
      intro h0
      rw [h0] at hlen
      exact hi (List.length_eq_zero_iff.1 hlen.symm)
    rw [if_pos (hasWitness_eq_true_iff.2 hne), List.append_assoc]
    rfl
  · have hnot : ¬ tx.hasWitness = true := fun h => hasWitness_eq_true_iff.1 h hw
    rw [if_neg hnot, List.append_nil]

/-- Without inputs there are no witnesses either, and so the marker is not written again. -/
theorem WireForm.encode_of_no_inputs (h : tx.WireForm w) (hi : tx.inputs = []) :
    tx.witness = [] ∧ ∃ version body, version.length = 4 ∧ w = version ++ 0 :: 1 :: body ∧
      tx.encode = .ok (version ++ body) := by
  obtain ⟨-, version, body, hv, hbody, ⟨hlen, rfl⟩ | ⟨-, hne, -⟩⟩ := h
  · have hw : tx.witness = [] := by
      rw [hi] at hlen
      exact List.length_eq_zero_iff.1 hlen
    have hnot : ¬ tx.hasWitness = true := fun h => hasWitness_eq_true_iff.1 h hw
    refine ⟨hw, version, body, Number.length_of_encode hv, rfl, ?_⟩
    refine encode_eq_ok_iff.2 ⟨version, body, hv, hbody, ?_⟩
    rw [if_neg hnot, List.append_nil]
  · exact absurd hi hne

/-- What is written is a wire form, but for the cases that the format has no place for. -/
theorem wireForm_of_encode (h : tx.encode = .ok w) (hr : tx.Readable) (hi : tx.inputs ≠ [])
    (hw : tx.witness = [] ∨ tx.witness.length = tx.inputs.length) : tx.WireForm w := by
  obtain ⟨version, body, hv, hbody, rfl⟩ := encode_eq_ok_iff.1 h
  refine ⟨hr, version, body, hv, hbody, ?_⟩
  by_cases h0 : tx.witness = []
  · have hnot : ¬ tx.hasWitness = true := fun h => hasWitness_eq_true_iff.1 h h0
    rw [if_neg hnot, List.append_nil]
    exact .inr ⟨h0, hi, rfl⟩
  · rw [if_pos (hasWitness_eq_true_iff.2 h0), List.append_assoc]
    exact .inl ⟨hw.resolve_left h0, rfl⟩

theorem readable_of_encode (h : tx.encode = .ok w) (hb : w.length < 2 ^ 63)
    (ht : ∀ input ∈ tx.inputs, input.txid.length = 32) : tx.Readable := by
  obtain ⟨version, _, -, ⟨wi, wo, ws, wl, hi, ho, hw, -, rfl⟩, rfl⟩ := encode_eq_ok_iff.1 h
  obtain ⟨ci, inputs, -, hin, rfl⟩ := encodeInputs_eq_ok_iff.1 hi
  obtain ⟨co, outputs, -, hout, rfl⟩ := encodeOutputs_eq_ok_iff.1 ho
  simp only [List.length_append] at hb
  refine ⟨fun input hm => ?_, fun output hm => ?_, fun witness hm => ?_⟩
  · obtain ⟨u, hu, hin⟩ := exists_infix_flatten hin hm
    have hl := hin.length_le
    exact Input.readable_of_encode hu (by omega) (ht input hm)
  · obtain ⟨u, hu, hin⟩ := exists_infix_flatten hout hm
    have hl := hin.length_le
    exact Output.readable_of_encode hu (by omega)
  · obtain ⟨u, hu, hin⟩ := exists_infix_flatten hw hm
    have hl := hin.length_le
    exact Witness.readable_of_encode hu (by omega)

end CoinWire.Tx.Transaction
