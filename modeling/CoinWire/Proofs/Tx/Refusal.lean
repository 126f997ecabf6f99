import CoinWire.Proofs.Tx.WireForm
import CoinWire.Proofs.Wire.Refusal

/-!
How transactions and their parts are refused. Data that is no transaction is refused in the family of read
failures, but for one case: a script or a witness item whose size no read can take, behind data that is
well formed so far.
-/

namespace CoinWire.Tx

open Wire
open Wire.Reader (Refuses CutIn takes_bytes refuses_bytes refuses_pure refuses_throw)
open Wire.CompactSize (Listed CutList)

namespace Input

/-- An input up to the size of its script, which no read can take. -/
def Oversized (w : Bytes) : Prop :=
  ∃ txid vout size : Bytes, txid.length = 32 ∧ vout.length = 4 ∧ CompactSize.Oversized size ∧
    w = txid ++ vout ++ size

theorem refuses_read : Refuses read Oversized := by
  have hnumber (label : String) := Number.refuses_read 4 (by decide) label
  have htakes (label : String) := Number.takes_read 4 (by decide) label
  refine ((refuses_bytes 32 "txid").bind (takes_bytes 32 "txid") fun txid =>
    (hnumber "vout").bind (htakes "vout") fun vout =>
    CompactSize.refuses_sized "scriptsig" fun script =>
    (hnumber "sequence").bind (htakes "sequence") fun sequence =>
    refuses_pure (Input.mk txid vout script sequence)).congr fun w => ?_
  have h32 : ¬ ((32 : Int) < -Reader.lengthBound ∨ Reader.lengthBound ≤ 32) := by
    decide
  simp only [h32, false_and, false_or, and_false, exists_false, or_false]
  constructor
  · intro h
    obtain ⟨txid, _, _, ⟨ht, -, rfl⟩, ⟨n, vout, size, hv, hs, rfl⟩, rfl⟩ := h
    refine ⟨_, vout, size, Int.ofNat_inj.1 ht, Number.length_of_encode hv, hs, ?_⟩
    rw [List.append_assoc]
  · intro h
    obtain ⟨txid, vout, size, ht, hv, hs, rfl⟩ := h
    obtain ⟨n, hn⟩ := Number.exists_encode_iff.2 hv
    refine ⟨txid, txid, vout ++ size, ⟨?_, ?_, rfl⟩, ⟨n, vout, size, hn, hs, rfl⟩, ?_⟩
    · rw [ht]
      rfl
    · decide
    · rw [List.append_assoc]

end Input

namespace Output

/-- An output up to the size of its script, which no read can take. -/
def Oversized (w : Bytes) : Prop :=
  ∃ amount size : Bytes, amount.length = 8 ∧ CompactSize.Oversized size ∧ w = amount ++ size

theorem refuses_read : Refuses read Oversized := by
  refine ((Number.refuses_read 8 (by decide) "amount").bind
    (Number.takes_read 8 (by decide) "amount") fun amount =>
    CompactSize.refuses_sized "scriptpubkey" fun script =>
    refuses_pure (Output.mk amount script)).congr fun w => ?_
  simp only [false_or, false_and, and_false, exists_false, or_false]
  constructor
  · intro h
    obtain ⟨n, amount, size, ha, hs, rfl⟩ := h
    exact ⟨amount, size, Number.length_of_encode ha, hs, rfl⟩
  · intro h
    obtain ⟨amount, size, ha, hs, rfl⟩ := h
    obtain ⟨n, hn⟩ := Number.exists_encode_iff.2 ha
    exact ⟨n, amount, size, hn, hs, rfl⟩

end Output

namespace Witness

def ItemForm (item w : Bytes) : Prop :=
  (item.length : Int) < Reader.lengthBound ∧ encodeItem item = .ok w

def Oversized : Bytes → Prop := CutList ItemForm CompactSize.Oversized

theorem refuses_readItem : Refuses readItem CompactSize.Oversized := by
  rw [readItem_eq]
  refine (CompactSize.refuses_sized "witness item" refuses_pure).congr fun w => ?_
  simp only [false_and, and_false, exists_false, or_false]

theorem refuses_read : Refuses read Oversized := by
  refine (CompactSize.refuses_counted refuses_readItem takes_readItem fun _ items =>
    refuses_pure (Witness.mk items)).congr fun w => ?_
  simp only [false_and, and_false, exists_false, or_false]
  rfl

end Witness

namespace Transaction

def InputForm (input : Input) (w : Bytes) : Prop := input.Readable ∧ input.encode = .ok w

def OutputForm (output : Output) (w : Bytes) : Prop := output.Readable ∧ output.encode = .ok w

def WitnessForm (witness : Witness) (w : Bytes) : Prop := witness.Readable ∧ witness.encode = .ok w

/-- All that follows the version, up to the size of a script or of an item that no read can take. Only
with marker and flag are there witnesses, one for each input. -/
inductive BodyOversized (segwit : Bool) : Bytes → Prop
  | input {w : Bytes} (hw : CutList InputForm Input.Oversized w) : BodyOversized segwit w
  | output {inputs : List Input} {front w : Bytes} (hi : Listed InputForm inputs front)
      (hw : CutList OutputForm Output.Oversized w) : BodyOversized segwit (front ++ w)
  | witness {inputs : List Input} {outputs : List Output} {front between w : Bytes}
      (hs : segwit = true) (hi : Listed InputForm inputs front)
      (ho : Listed OutputForm outputs between)
      (hw : CutIn WitnessForm Witness.Oversized inputs.length w) :
      BodyOversized segwit (front ++ (between ++ w))

/-- A transaction up to such a size, in either of its two forms. -/
def Oversized (w : Bytes) : Prop :=
  ∃ version body : Bytes, version.length = 4 ∧
    ((BodyOversized true body ∧ w = version ++ 0 :: 1 :: body) ∨
      (BodyOversized false body ∧ body.head? ≠ some 0 ∧ w = version ++ body))

theorem BodyOversized.head {segwit : Bool} {w : Bytes} (h : BodyOversized segwit w) :
    ∃ first tail, w = first :: tail := by
  have hcount {n : Nat} {count v : Bytes} (hc : CompactSize.encode n = .ok count) :
      ∃ first tail, count ++ v = first :: tail := by
    obtain ⟨first, tail, rfl, -⟩ := CompactSize.encode_head hc
    exact ⟨first, _, rfl⟩
  cases h with
  | input hw =>
    obtain ⟨n, count, v, hc, -, rfl⟩ := hw
    exact hcount hc
  | output hi hw =>
    obtain ⟨count, ws, hc, -, rfl⟩ := hi
    rw [List.append_assoc]
    exact hcount hc
  | witness hs hi ho hw =>
    obtain ⟨count, ws, hc, -, rfl⟩ := hi
    rw [List.append_assoc]
    exact hcount hc

theorem refuses_readWitness (segwit : Bool) (count : Nat) : Refuses (readWitness segwit count)
    fun w => segwit = true ∧ CutIn WitnessForm Witness.Oversized count w := by
  cases segwit with
  | true =>
    refine (Witness.refuses_read.many Witness.takes_read count).congr fun w => ?_
    exact (and_iff_right rfl).symm
  | false =>
    refine (refuses_pure []).congr fun w => ?_
    simp only [Bool.false_eq_true, false_and]

theorem refuses_readBody (version : Nat) (segwit : Bool) :
    Refuses (readBody version segwit) (BodyOversized segwit) := by
  refine (CompactSize.refuses_counted Input.refuses_read Input.takes_read fun inputCount inputs =>
    CompactSize.refuses_counted Output.refuses_read Output.takes_read fun _ outputs =>
    (refuses_readWitness segwit inputCount).bind (takes_readWitness segwit inputCount) fun witness =>
    (Number.refuses_read 4 (by decide) "locktime").bind (Number.takes_read 4 (by decide) "locktime")
      fun locktime => refuses_pure (Transaction.mk version inputs outputs witness locktime)).congr
    fun w => ?_
  simp only [false_and, and_false, exists_false, or_false]
  constructor
  · intro h
    obtain hw | ⟨inputs, front, _, hi, hw | ⟨outputs, between, w, ho, ⟨hs, hw⟩, rfl⟩, rfl⟩ := h
    · exact .input hw
    · exact .output hi hw
    · exact .witness hs hi ho hw
  · intro h
    cases h with
    | input hw => exact .inl hw
    | output hi hw => exact .inr ⟨_, _, _, hi, .inl hw, rfl⟩
    | witness hs hi ho hw => exact .inr ⟨_, _, _, hi, .inr ⟨_, _, _, ho, ⟨hs, hw⟩, rfl⟩, rfl⟩

theorem refuses_readFlag : Refuses (do
    let flag ← Number.read 1 "flag"
    if flag = 1 then pure true else throw (.segwitFlag flag))
    fun _ => False := by
  have hflag (flag : Nat) : Family.read ∈ (Wire.Failure.segwitFlag flag).families := by
    simp [Wire.Failure.families]
  refine ((Number.refuses_read 1 (by decide) "flag").bind (Number.takes_read 1 (by decide) "flag")
    fun flag => (refuses_pure true).ite (refuses_throw (hflag flag))).congr fun w => ?_
  simp only [ite_self, and_false, false_and, exists_false, or_false]

/-- Marker and flag hold no length. -/
theorem readMarker_refused {unread rest : Bytes} {e : Wire.Failure}
    (h : readMarker unread = .error e rest) : Family.read ∈ e.families := by
  rw [readMarker, run_bind_eq_error_iff] at h
  rcases h with h | ⟨before, between, -, h⟩
  · cases h
  rcases run_bind_eq_error_iff.1 h with h | ⟨first, behind, -, h⟩
  · exact (Number.refuses_read 1 (by decide) "marker or input count").read_of_never h
  · by_cases hz : first = 0
    · rw [if_pos hz] at h
      exact refuses_readFlag.read_of_never h
    · rw [if_neg hz] at h
      cases h

theorem lengthOverflow_of_oversized {w rest : Bytes} (h : Oversized w) :
    read (w ++ rest) = .error .lengthOverflow rest := by
  obtain ⟨wv, body, hv, hform⟩ := h
  obtain ⟨version, hn⟩ := Number.exists_encode_iff.2 hv
  have hversion (more : Bytes) : Number.read 4 "version" (wv ++ more) = .ok version more :=
    (Number.takes_read 4 (by decide) "version").append hn more
  have hbody (segwit : Bool) (hb : BodyOversized segwit body) :
      readBody version segwit (body ++ rest) = .error .lengthOverflow rest :=
    (refuses_readBody version segwit).overflow.2 ⟨body, hb, rfl⟩
  rw [read_eq, run_bind_eq_error_iff]
  right
  rcases hform with ⟨hb, rfl⟩ | ⟨hb, hz, rfl⟩
  · refine ⟨version, 0 :: 1 :: (body ++ rest), ?_, run_bind_eq_error_iff.2 (.inr ?_)⟩
    · rw [List.append_assoc]
      exact hversion _
    · exact ⟨true, body ++ rest, readMarker_eq_ok_iff.2 (.inl ⟨rfl, rfl⟩), hbody true hb⟩
  · obtain ⟨first, tail, rfl⟩ := hb.head
    have hne : first ≠ 0 := by
      intro h0
      exact hz (congrArg some h0)
    have hmarker : readMarker (first :: tail ++ rest) = .ok false (first :: tail ++ rest) :=
      readMarker_eq_ok_iff.2 (.inr ⟨rfl, rfl, first, tail ++ rest, hne, rfl⟩)
    refine ⟨version, first :: tail ++ rest, ?_, run_bind_eq_error_iff.2 (.inr ?_)⟩
    · rw [List.append_assoc]
      exact hversion _
    · exact ⟨false, _, hmarker, hbody false hb⟩

theorem read_refused_cases {unread rest : Bytes} {e : Wire.Failure} (h : read unread = .error e rest) :
    Family.read ∈ e.families ∨ ∃ wv version segwit between behind, wv.length = 4 ∧
      unread = wv ++ between ∧ readMarker between = .ok segwit behind ∧
      readBody version segwit behind = .error e rest := by
  rw [read_eq, run_bind_eq_error_iff] at h
  rcases h with h | ⟨version, between, hv, h⟩
  · exact .inl ((Number.refuses_read 4 (by decide) "version").read_of_never h)
  obtain ⟨wv, hwv, rfl⟩ := (Number.takes_read 4 (by decide) "version" _ _ _).1 hv
  rcases run_bind_eq_error_iff.1 h with h | ⟨segwit, behind, hm, h⟩
  · exact .inl (readMarker_refused h)
  · exact .inr ⟨wv, version, segwit, between, behind, Number.length_of_encode hwv, rfl, hm, h⟩

theorem oversized_of_lengthOverflow {unread rest : Bytes}
    (h : read unread = .error .lengthOverflow rest) : ∃ w, Oversized w ∧ unread = w ++ rest := by
  rcases read_refused_cases h with h | ⟨wv, version, segwit, between, behind, hv, rfl, hm, h⟩
  · cases h
  obtain ⟨body, hb, rfl⟩ := (refuses_readBody version segwit).overflow.1 h
  rcases readMarker_eq_ok_iff.1 hm with ⟨rfl, rfl⟩ | ⟨rfl, rfl, first, tail, hz, hft⟩
  · refine ⟨wv ++ 0 :: 1 :: body, ⟨wv, body, hv, .inl ⟨hb, rfl⟩⟩, ?_⟩
    simp only [List.append_assoc, List.cons_append]
  · obtain ⟨head, others, rfl⟩ := hb.head
    obtain ⟨rfl, -⟩ := List.cons.inj hft
    have hne : (head :: others).head? ≠ some 0 := by
      intro h0
      exact hz (Option.some.inj h0)
    refine ⟨wv ++ head :: others, ⟨wv, _, hv, .inr ⟨hb, hne, rfl⟩⟩, ?_⟩
    rw [List.append_assoc]

theorem refuses_read : Refuses read Oversized := by
  refine ⟨fun {unread e rest} h he => ?_, fun {unread rest} => ⟨oversized_of_lengthOverflow, ?_⟩⟩
  · rcases read_refused_cases h with h | ⟨wv, version, segwit, between, behind, -, -, -, h⟩
    · exact h
    · exact (refuses_readBody version segwit).read h he
  · intro h
    obtain ⟨w, hw, rfl⟩ := h
    exact lengthOverflow_of_oversized hw

/-- One input, whose script has a size of two to the power 63. -/
def oversizedBytes : Bytes :=
  [1, 0, 0, 0] ++ [1] ++ List.replicate 32 0 ++ [0, 0, 0, 0] ++ [0xff, 0, 0, 0, 0, 0, 0, 0, 0x80]

/-- Data of each sort is read, or else refused as unreadable, just where no script and no item has a size
beyond what a read can take. -/
theorem settles_read_iff (bytes : Bytes) :
    (Input.read.Settles bytes ↔ ¬ ∃ w, Input.Oversized w ∧ w <+: bytes) ∧
    (Output.read.Settles bytes ↔ ¬ ∃ w, Output.Oversized w ∧ w <+: bytes) ∧
    (Witness.read.Settles bytes ↔ ¬ ∃ w, Witness.Oversized w ∧ w <+: bytes) ∧
    (read.Settles bytes ↔ ¬ ∃ w, Oversized w ∧ w <+: bytes) :=
  ⟨Input.refuses_read.settles_iff bytes, Output.refuses_read.settles_iff bytes,
    Witness.refuses_read.settles_iff bytes, refuses_read.settles_iff bytes⟩

theorem not_settles_oversizedBytes :
    read oversizedBytes = .error .lengthOverflow [] ∧ ¬ read.Settles oversizedBytes := by
  have h : read oversizedBytes = .error .lengthOverflow [] := by
    rfl
  refine ⟨h, ?_⟩
  intro hs
  rcases hs with ⟨tx, rest, hr⟩ | ⟨e, rest, hr, he⟩
  · cases h.symm.trans hr
  · obtain ⟨rfl, -⟩ := EStateM.Result.error.inj (h.symm.trans hr)
    cases he

end Transaction

end CoinWire.Tx
