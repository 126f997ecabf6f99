import CoinWire.Proofs.Wire.Sizes
import CoinWire.Tx.Transaction
import Mathlib.Algebra.Group.Nat.Defs

/-!
Inputs, outputs and witnesses against their written forms. Each is read from exactly the bytes it is
written to, as long as the name of a spent transaction has its 32 bytes and no script or item is longer
than a read can take.
-/

namespace CoinWire.Tx

open Wire
open Wire.Reader (Takes takes_bytes takes_pure lengthBound)

namespace Input

def Readable (input : Input) : Prop :=
  input.txid.length = 32 ∧ (input.script.length : Int) < lengthBound

theorem encode_eq_ok_iff {input : Input} {w : Bytes} :
    input.encode = .ok w ↔ ∃ vout size sequence, Number.encode 4 input.vout = .ok vout ∧
      CompactSize.encode input.script.length = .ok size ∧
      Number.encode 4 input.sequence = .ok sequence ∧
      w = input.txid ++ vout ++ size ++ input.script ++ sequence := by
  simp only [encode, bind_eq_ok_iff, pure_eq_ok_iff, exists_and_left]

theorem takes_read : Takes read fun input w => input.Readable ∧ input.encode = .ok w := by
  refine ((takes_bytes 32 "txid").bind fun txid =>
    (Number.takes_read 4 (by decide) "vout").bind fun vout =>
    CompactSize.takes_sized "scriptsig" fun script =>
    (Number.takes_read 4 (by decide) "sequence").bind fun sequence =>
    takes_pure (Input.mk txid vout script sequence)).congr fun input w => ?_
  rw [encode_eq_ok_iff]
  constructor
  · intro h
    obtain ⟨txid, _, _, ⟨ht, -, rfl⟩, h, rfl⟩ := h
    obtain ⟨vout, wv, _, hv, h, rfl⟩ := h
    obtain ⟨script, ws, _, hb, hs, h, rfl⟩ := h
    obtain ⟨sequence, wq, _, hq, ⟨rfl, rfl⟩, rfl⟩ := h
    refine ⟨⟨Int.ofNat_inj.1 ht, hb⟩, wv, ws, wq, hv, hs, hq, ?_⟩
    simp only [List.append_assoc, List.append_nil]
  · intro h
    obtain ⟨⟨ht, hb⟩, wv, ws, wq, hv, hs, hq, rfl⟩ := h
    obtain ⟨vout, hvout, -⟩ := Number.encode_ok hv
    obtain ⟨sequence, hsequence, -⟩ := Number.encode_ok hq
    rw [hvout] at hv
    rw [hsequence] at hq
    refine ⟨input.txid, _, _, ⟨by rw [ht]; rfl, by decide, rfl⟩, ⟨vout, wv, _, hv,
      ⟨input.script, ws, _, hb, hs, ⟨sequence, wq, [], hq, ⟨?_, rfl⟩, rfl⟩, rfl⟩, rfl⟩, ?_⟩
    · rw [← hvout, ← hsequence]
    · simp only [List.append_assoc, List.append_nil]

theorem script_infix {input : Input} {w : Bytes} (h : input.encode = .ok w) :
    input.script <:+: w := by
  obtain ⟨vout, size, sequence, -, -, -, rfl⟩ := encode_eq_ok_iff.1 h
  exact List.infix_append (input.txid ++ vout ++ size) input.script sequence

theorem readable_of_encode {input : Input} {w : Bytes} (h : input.encode = .ok w)
    (hb : w.length < 2 ^ 63) (ht : input.txid.length = 32) : input.Readable := by
  have hin := script_infix h
  have hl := hin.length_le
  refine ⟨ht, ?_⟩
  simp only [lengthBound]
  omega

end Input

namespace Output

def Readable (output : Output) : Prop :=
  (output.script.length : Int) < lengthBound

theorem encode_eq_ok_iff {output : Output} {w : Bytes} :
    output.encode = .ok w ↔ ∃ amount size, Number.encode 8 output.amount = .ok amount ∧
      CompactSize.encode output.script.length = .ok size ∧ w = amount ++ size ++ output.script := by
  simp only [encode, bind_eq_ok_iff, pure_eq_ok_iff, exists_and_left]

theorem takes_read : Takes read fun output w => output.Readable ∧ output.encode = .ok w := by
  refine ((Number.takes_read 8 (by decide) "amount").bind fun amount =>
    CompactSize.takes_sized "scriptpubkey" fun script =>
    takes_pure (Output.mk amount script)).congr fun output w => ?_
  rw [encode_eq_ok_iff]
  constructor
  · intro h
    obtain ⟨amount, wa, _, ha, h, rfl⟩ := h
    obtain ⟨script, ws, _, hb, hs, ⟨rfl, rfl⟩, rfl⟩ := h
    refine ⟨hb, wa, ws, ha, hs, ?_⟩
    simp only [List.append_assoc, List.append_nil]
  · intro h
    obtain ⟨hb, wa, ws, ha, hs, rfl⟩ := h
    obtain ⟨amount, hamount, -⟩ := Number.encode_ok ha
    rw [hamount] at ha
    refine ⟨amount, wa, _, ha, ⟨output.script, ws, [], hb, hs, ⟨?_, rfl⟩, rfl⟩, ?_⟩
    · rw [← hamount]
    · simp only [List.append_assoc, List.append_nil]

theorem script_infix {output : Output} {w : Bytes} (h : output.encode = .ok w) :
    output.script <:+: w := by
  obtain ⟨amount, size, -, -, rfl⟩ := encode_eq_ok_iff.1 h
  exact (List.suffix_append (amount ++ size) output.script).isInfix

theorem readable_of_encode {output : Output} {w : Bytes} (h : output.encode = .ok w)
    (hb : w.length < 2 ^ 63) : output.Readable := by
  have hin := script_infix h
  have hl := hin.length_le
  simp only [Readable, lengthBound]
  omega

end Output

namespace Witness

def Readable (witness : Witness) : Prop :=
  ∀ item ∈ witness.items, (item.length : Int) < lengthBound

theorem encodeItem_eq_ok_iff {item w : Bytes} : encodeItem item = .ok w ↔
    ∃ size, CompactSize.encode item.length = .ok size ∧ w = size ++ item := by
  simp only [encodeItem, bind_eq_ok_iff, pure_eq_ok_iff]

theorem encode_eq_ok_iff {witness : Witness} {w : Bytes} :
    witness.encode = .ok w ↔ ∃ count items, CompactSize.encode witness.items.length = .ok count ∧
      witness.items.mapM encodeItem = .ok items ∧ w = count ++ items.flatten := by
  simp only [encode, bind_eq_ok_iff, pure_eq_ok_iff, exists_and_left]

/-- In this form the item is data behind its size, with nothing more to read. -/
theorem readItem_eq : readItem =
    CompactSize.read >>= fun size => Reader.bytes size "witness item" >>= pure := by
  simp only [readItem, bind_pure]

theorem takes_readItem :
    Takes readItem fun item w => (item.length : Int) < lengthBound ∧ encodeItem item = .ok w := by
  rw [readItem_eq]
  refine (CompactSize.takes_sized "witness item" takes_pure).congr fun item w => ?_
  rw [encodeItem_eq_ok_iff]
  constructor
  · intro h
    obtain ⟨data, size, _, hb, hs, ⟨rfl, rfl⟩, rfl⟩ := h
    exact ⟨hb, size, hs, List.append_nil _⟩
  · intro h
    obtain ⟨hb, size, hs, rfl⟩ := h
    exact ⟨item, size, [], hb, hs, ⟨rfl, rfl⟩, (List.append_nil _).symm⟩

theorem takes_read : Takes read fun witness w => witness.Readable ∧ witness.encode = .ok w := by
  refine (CompactSize.takes_counted takes_readItem fun _ items =>
    takes_pure (Witness.mk items)).congr fun witness w => ?_
  rw [encode_eq_ok_iff]
  constructor
  · intro h
    obtain ⟨items, count, ws, _, hf, hc, hws, ⟨rfl, rfl⟩, rfl⟩ := h
    exact ⟨hf, count, ws, hc, hws, List.append_nil _⟩
  · intro h
    obtain ⟨hf, count, ws, hc, hws, rfl⟩ := h
    exact ⟨witness.items, count, ws, [], hf, hc, hws, ⟨rfl, rfl⟩, (List.append_nil _).symm⟩

theorem item_infix {witness : Witness} {w : Bytes} (h : witness.encode = .ok w) {item : Bytes}
    (hi : item ∈ witness.items) : item <:+: w := by
  obtain ⟨count, items, -, hitems, rfl⟩ := encode_eq_ok_iff.1 h
  obtain ⟨u, hu, hin⟩ := exists_infix_flatten hitems hi
  obtain ⟨size, -, rfl⟩ := encodeItem_eq_ok_iff.1 hu
  have hitem : item <:+: size ++ item := (List.suffix_append size item).isInfix
  exact hitem.trans (hin.trans (List.suffix_append count items.flatten).isInfix)

theorem readable_of_encode {witness : Witness} {w : Bytes} (h : witness.encode = .ok w)
    (hb : w.length < 2 ^ 63) : witness.Readable := by
  intro item hi
  have hin := item_infix h hi
  have hl := hin.length_le
  simp only [lengthBound]
  omega

end Witness

end CoinWire.Tx
