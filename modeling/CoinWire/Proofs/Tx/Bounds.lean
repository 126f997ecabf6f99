import CoinWire.Proofs.Tx.RoundTrip
import CoinWire.Proofs.Wire.Loops
import Mathlib.Algebra.BigOperators.Group.List.Basic
import Mathlib.Algebra.GroupWithZero.Nat

/-!
Reading a transaction is bounded by its data, whatever numbers the data declares. Each iteration of the four
loops takes a least number of bytes or fails, and so the loops end; a declared number that the unread data
cannot hold ends in a refusal. What has been read is never longer than the bytes taken for it.
-/

namespace CoinWire

theorem sum_le_length_flatten {ε α β : Type} {f : α → Except ε (List β)} {size : α → Nat}
    {least : Nat} {as : List α} {ws : List (List β)} (hm : as.mapM f = .ok ws)
    (h : ∀ a ∈ as, ∀ w, f a = .ok w → least + size a ≤ w.length) :
    least * as.length + (as.map size).sum ≤ ws.flatten.length := by
  have hf := mapM_eq_ok_iff.1 hm
  clear hm
  induction hf with
  | nil => simp
  | @cons a w as ws hw hrest ih =>
    obtain ⟨ha, has⟩ := List.forall_mem_cons.1 h
    have hfirst := ha w hw
    have hothers := ih has
    simp only [List.length_cons, List.map_cons, List.sum_cons, List.flatten_cons,
      List.length_append, Nat.mul_succ]
    omega

namespace Tx

open Wire

section Lengths

variable {w : Bytes}

theorem Input.length_of_encode {input : Input} (h : input.encode = .ok w) :
    9 + input.txid.length + input.script.length ≤ w.length := by
  obtain ⟨vout, size, sequence, hv, hs, hq, rfl⟩ := encode_eq_ok_iff.1 h
  have hvout := Number.length_of_encode hv
  have hsize := CompactSize.one_le_length_of_encode hs
  have hsequence := Number.length_of_encode hq
  simp only [List.length_append]
  omega

theorem Output.length_of_encode {output : Output} (h : output.encode = .ok w) :
    9 + output.script.length ≤ w.length := by
  obtain ⟨amount, size, ha, hs, rfl⟩ := encode_eq_ok_iff.1 h
  have hamount := Number.length_of_encode ha
  have hsize := CompactSize.one_le_length_of_encode hs
  simp only [List.length_append]
  omega

theorem Witness.length_of_encodeItem {item : Bytes} (h : encodeItem item = .ok w) :
    1 + item.length ≤ w.length := by
  obtain ⟨size, hs, rfl⟩ := encodeItem_eq_ok_iff.1 h
  have hsize := CompactSize.one_le_length_of_encode hs
  simp only [List.length_append]
  omega

def Witness.payload (witness : Witness) : Nat := (witness.items.map List.length).sum

theorem Witness.length_of_encode {witness : Witness} (h : witness.encode = .ok w) :
    1 + (witness.items.length + witness.payload) ≤ w.length := by
  obtain ⟨count, items, hc, hi, rfl⟩ := encode_eq_ok_iff.1 h
  have hcount := CompactSize.one_le_length_of_encode hc
  have hitems : 1 * witness.items.length + witness.payload ≤ items.flatten.length :=
    sum_le_length_flatten hi fun item _ u hu => length_of_encodeItem hu
  rw [List.length_append]
  omega

end Lengths

namespace Transaction

inductive Loop
  | inputs
  | outputs
  | witnesses
  | items

namespace Loop

def Item : Loop → Type
  | inputs => Input
  | outputs => Output
  | witnesses => Witness
  | items => Bytes

def reader : (loop : Loop) → Reader loop.Item
  | inputs => Input.read
  | outputs => Output.read
  | witnesses => Witness.read
  | items => Witness.readItem

def least : Loop → Nat
  | inputs => 41
  | outputs => 9
  | witnesses | items => 1

theorem consumes_reader (loop : Loop) : loop.reader.Consumes loop.least := by
  cases loop with
  | inputs =>
    refine Input.takes_read.consumes fun input w h => ?_
    have hl := Input.length_of_encode h.2
    rw [h.1.1] at hl
    exact Nat.le_trans (Nat.le_add_right ..) hl
  | outputs =>
    refine Output.takes_read.consumes fun output w h => ?_
    exact Nat.le_trans (Nat.le_add_right ..) (Output.length_of_encode h.2)
  | witnesses =>
    refine Witness.takes_read.consumes fun witness w h => ?_
    exact Nat.le_trans (Nat.le_add_right ..) (Witness.length_of_encode h.2)
  | items =>
    refine Witness.takes_readItem.consumes fun item w h => ?_
    exact Nat.le_trans (Nat.le_add_right ..) (Witness.length_of_encodeItem h.2)

end Loop

/-- The version, and whether marker and flag follow it. -/
def readForm : Reader (Nat × Bool) := do
  let version ← Number.read 4 "version"
  let segwit ← readMarker
  pure (version, segwit)

/-- Reading these bytes comes to a loop, to be run as often as is declared, with so much unread. Each witness
that is begun comes to a loop of its own. -/
inductive Enters (bytes : Bytes) : Loop → Nat → Bytes → Prop
  | inputs {version count : Nat} {segwit : Bool} {front unread : Bytes}
      (hf : readForm bytes = .ok (version, segwit) front)
      (hc : CompactSize.read front = .ok count unread) : Enters bytes .inputs count unread
  | outputs {version inputCount count : Nat} {segwit : Bool} {front middle between unread : Bytes}
      {inputs : List Input} (hf : readForm bytes = .ok (version, segwit) front)
      (hn : CompactSize.read front = .ok inputCount middle)
      (hi : Reader.many inputCount Input.read middle = .ok inputs between)
      (hc : CompactSize.read between = .ok count unread) : Enters bytes .outputs count unread
  | witnesses {version count outputCount : Nat} {front middle between behind unread : Bytes}
      {inputs : List Input} {outputs : List Output}
      (hf : readForm bytes = .ok (version, true) front)
      (hc : CompactSize.read front = .ok count middle)
      (hi : Reader.many count Input.read middle = .ok inputs between)
      (hn : CompactSize.read between = .ok outputCount behind)
      (ho : Reader.many outputCount Output.read behind = .ok outputs unread) :
      Enters bytes .witnesses count unread
  | items {witnessCount count : Nat} {rest before unread : Bytes}
      (h : Enters bytes .witnesses witnessCount rest)
      (hb : before ∈ Witness.read.begun witnessCount rest)
      (hc : CompactSize.read before = .ok count unread) : Enters bytes .items count unread

section Enters

variable {bytes unread : Bytes} {loop : Loop} {count : Nat}

theorem read_of_form {version : Nat} {segwit : Bool} {front : Bytes}
    (h : readForm bytes = .ok (version, segwit) front) :
    read bytes = readBody version segwit front := by
  simp only [readForm, run_bind_eq_ok_iff] at h
  obtain ⟨_, between, hv, _, behind, hm, hp⟩ := h
  obtain ⟨hform, rfl⟩ := EStateM.Result.ok.inj hp
  obtain ⟨rfl, rfl⟩ := Prod.mk.inj hform
  simp only [read_eq, bind, EStateM.bind, hv, hm]

theorem Enters.read_eq_error (h : Enters bytes loop count unread) {e : Wire.Failure} {rest : Bytes}
    (he : Reader.many count loop.reader unread = .error e rest) : read bytes = .error e rest := by
  induction h with
  | inputs hf hc =>
    rw [read_of_form hf]
    simp only [readBody, run_bind_eq_error_iff]
    exact .inr ⟨_, _, hc, .inl he⟩
  | outputs hf hn hi hc =>
    rw [read_of_form hf]
    simp only [readBody, run_bind_eq_error_iff]
    exact .inr ⟨_, _, hn, .inr ⟨_, _, hi, .inr ⟨_, _, hc, .inl he⟩⟩⟩
  | witnesses hf hc hi hn ho =>
    rw [read_of_form hf]
    simp only [readBody, run_bind_eq_error_iff]
    exact .inr ⟨_, _, hc, .inr ⟨_, _, hi, .inr ⟨_, _, hn, .inr ⟨_, _, ho, .inl he⟩⟩⟩⟩
  | items h hb hc ih =>
    refine ih (Reader.many_eq_error_iff.2 ⟨_, hb, ?_⟩)
    exact run_bind_eq_error_iff.2 (.inr ⟨_, _, hc, run_bind_eq_error_iff.2 (.inl he)⟩)

theorem Enters.iteration (h : Enters bytes loop count unread) {before : Bytes}
    (hb : before ∈ loop.reader.begun count unread) :
    (∃ e rest, loop.reader before = .error e rest ∧ read bytes = .error e rest) ∨
      ∃ item rest, loop.reader before = .ok item rest ∧ rest.length + loop.least ≤ before.length := by
  cases hr : loop.reader before with
  | error e rest =>
    exact .inl ⟨e, rest, rfl, h.read_eq_error (Reader.many_eq_error_iff.2 ⟨before, hb, hr⟩)⟩
  | ok item rest => exact .inr ⟨item, rest, rfl, loop.consumes_reader hr⟩

theorem Enters.refused (h : Enters bytes loop count unread)
    (hl : unread.length < loop.least * count) : ∃ e rest, read bytes = .error e rest := by
  obtain ⟨e, rest, he⟩ := loop.consumes_reader.many_refused hl
  exact ⟨e, rest, h.read_eq_error he⟩

end Enters

def payload (tx : Transaction) : Nat :=
  (tx.inputs.map fun input => input.script.length).sum +
    (tx.outputs.map fun output => output.script.length).sum + (tx.witness.map Witness.payload).sum

theorem WireForm.size_le {tx : Transaction} {w : Bytes} (h : tx.WireForm w) :
    10 + 41 * tx.inputs.length + 9 * tx.outputs.length + tx.witness.length +
      (tx.witness.map fun witness => witness.items.length).sum + tx.payload ≤ w.length := by
  obtain ⟨hr, version, body, hv, ⟨_, _, ws, wl, hi, ho, hw, hl, rfl⟩, hform⟩ := h
  obtain ⟨ci, wi, hci, hinputs, rfl⟩ := encodeInputs_eq_ok_iff.1 hi
  obtain ⟨co, wo, hco, houtputs, rfl⟩ := encodeOutputs_eq_ok_iff.1 ho
  have hversion := Number.length_of_encode hv
  have hlocktime := Number.length_of_encode hl
  have hcounts := And.intro (CompactSize.one_le_length_of_encode hci) (CompactSize.one_le_length_of_encode hco)
  have hin := sum_le_length_flatten hinputs fun input hm w hw => by
    have hlen := Input.length_of_encode hw
    rw [(hr.inputs input hm).1] at hlen
    exact hlen
  have hout := sum_le_length_flatten houtputs fun output _ w hw => Output.length_of_encode hw
  have hwit := sum_le_length_flatten hw fun witness _ w hw => Witness.length_of_encode hw
  rw [List.sum_map_add] at hwit
  have hlen : version.length + (ci.length + wi.flatten.length) + (co.length + wo.flatten.length) +
      ws.flatten.length + wl.length ≤ w.length := by
    obtain ⟨-, rfl⟩ | ⟨-, -, rfl⟩ := hform
    · simp only [List.length_append, List.length_cons]
      omega
    · simp only [List.length_append]
      omega
  rw [payload]
  omega

/-- No number that data declares makes reading run away. Every iteration that is begun takes its share or
ends the reading, and the next begins behind it. -/
theorem read_bounded (bytes : Bytes) :
    (∀ loop count unread, Enters bytes loop count unread →
      (∀ before ∈ loop.reader.begun count unread,
        (∃ e rest, loop.reader before = .error e rest ∧ read bytes = .error e rest) ∨
          ∃ item rest, loop.reader before = .ok item rest ∧
            rest.length + loop.least ≤ before.length) ∧
      ((loop.reader.begun count unread).IsChain fun before after =>
        ∃ item, loop.reader before = .ok item after) ∧
      loop.least * (loop.reader.begun count unread).length ≤ unread.length + loop.least ∧
      (unread.length < loop.least * count → ∃ e rest, read bytes = .error e rest)) ∧
    ∀ tx k, (Stream.mk bytes 0).run read = (.ok tx, ⟨bytes, k⟩) →
      k ≤ bytes.length ∧
        10 + 41 * tx.inputs.length + 9 * tx.outputs.length + tx.witness.length +
          (tx.witness.map fun witness => witness.items.length).sum + tx.payload ≤ k := by
  constructor
  · intro loop count unread h
    exact ⟨fun before => h.iteration, Reader.isChain_begun count unread,
      loop.consumes_reader.length_begun count unread, h.refused⟩
  · intro tx k h
    obtain ⟨hk, hw⟩ := takes_read.run_eq_ok_iff.1 h
    have hlen := hw.size_le
    rw [List.length_take_of_le hk] at hlen
    exact ⟨hk, hlen⟩

/-- The largest number of inputs that can be declared, and none of them. -/
example : ∃ e rest, read ([1, 0, 0, 0] ++ List.replicate 9 0xff) = .error e rest :=
  (Enters.inputs rfl rfl).refused (by decide)

end Transaction

end Tx

end CoinWire
