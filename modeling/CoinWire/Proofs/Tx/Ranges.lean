import CoinWire.Proofs.Tx.Display
import CoinWire.Proofs.Wire.Canonical
import Mathlib.Algebra.Group.Int.Defs

/-!
Which transactions have a wire form. Their numbers are arbitrary, so any of them may not fit its field, and
the first in the order of writing that does not decides the failure. The two names of a transaction, its
representation and its display are made from wire forms with the same numbers in the same order, and so they
fail exactly as writing does.
-/

namespace CoinWire

namespace Wire

structure Slot where
  width : Nat
  value : Int
  deriving DecidableEq, Repr

namespace Slot

def Fits (slot : Slot) : Prop := 0 ≤ slot.value ∧ slot.value < capacity slot.width

instance (slot : Slot) : Decidable slot.Fits :=
  inferInstanceAs (Decidable (0 ≤ slot.value ∧ slot.value < capacity slot.width))

def fault (slot : Slot) : Failure :=
  if slot.value < 0 then .negativeNumber else .numberTooBig

def FirstFault (slots : List Slot) (e : Failure) : Prop :=
  ∃ front slot behind, slots = front ++ slot :: behind ∧ (∀ other ∈ front, other.Fits) ∧
    ¬ slot.Fits ∧ e = slot.fault

variable {slot : Slot} {slots more : List Slot} {e : Failure}

theorem message_fault (slot : Slot) : slot.fault.message =
    if slot.value < 0 then "can't convert negative int to unsigned"
    else "int too big to convert" := by
  rw [fault]
  split
  · rfl
  · rfl

theorem families_fault (slot : Slot) : slot.fault.families = [] := by
  rw [fault]
  split
  · rfl
  · rfl

theorem firstFault_nil : ¬ FirstFault [] e := by
  rintro ⟨front, slot, behind, h, -⟩
  cases front <;> cases h

theorem firstFault_cons : FirstFault (slot :: slots) e ↔
    (¬ slot.Fits ∧ e = slot.fault) ∨ (slot.Fits ∧ FirstFault slots e) := by
  constructor
  · rintro ⟨_ | ⟨first, front⟩, it, behind, h, hf, hn, he⟩
    · obtain ⟨rfl, -⟩ := List.cons.inj h
      exact .inl ⟨hn, he⟩
    · obtain ⟨rfl, rfl⟩ := List.cons.inj h
      obtain ⟨hfirst, hfront⟩ := List.forall_mem_cons.1 hf
      exact .inr ⟨hfirst, front, it, behind, rfl, hfront, hn, he⟩
  · rintro (⟨hn, he⟩ | ⟨hs, front, it, behind, rfl, hf, hn, he⟩)
    · exact ⟨[], slot, slots, rfl, nofun, hn, he⟩
    · exact ⟨slot :: front, it, behind, rfl, List.forall_mem_cons.2 ⟨hs, hf⟩, hn, he⟩

theorem firstFault_append : FirstFault (slots ++ more) e ↔
    FirstFault slots e ∨ ((∀ slot ∈ slots, slot.Fits) ∧ FirstFault more e) := by
  induction slots with
  | nil => simp [firstFault_nil]
  | cons slot slots ih =>
    simp only [List.cons_append, firstFault_cons, ih, List.forall_mem_cons, and_or_left, or_assoc,
      and_assoc]

theorem exists_firstFault_iff : (∃ e, FirstFault slots e) ↔ ¬ ∀ slot ∈ slots, slot.Fits := by
  induction slots with
  | nil => simp [firstFault_nil]
  | cons slot slots ih =>
    simp only [firstFault_cons, exists_or, exists_and_left, exists_eq, and_true, ih,
      List.forall_mem_cons, not_and_or]
    by_cases hs : slot.Fits
    · simp [hs]
    · simp [hs]

end Slot

section Writes

open Slot (FirstFault)

variable {α β : Type} {x : Except Failure α} {f : α → Except Failure β} {slots more : List Slot}

/-- A computation that writes these numbers in this order, and that nothing else makes fail. -/
def Writes (x : Except Failure α) (slots : List Slot) : Prop :=
  ∀ e, x = .error e ↔ FirstFault slots e

theorem writes_ok (a : α) : Writes (.ok a) [] := by
  intro e
  exact iff_of_false nofun Slot.firstFault_nil

theorem Writes.ok_iff (h : Writes x slots) : (∃ a, x = .ok a) ↔ ∀ slot ∈ slots, slot.Fits := by
  rw [← not_iff_not, ← Slot.exists_firstFault_iff]
  simp only [← h _]
  cases x with
  | error e => simp
  | ok a => simp

theorem Writes.bind (h : Writes x slots) (hf : ∀ a, Writes (f a) more) :
    Writes (x >>= f) (slots ++ more) := by
  intro e
  rw [bind_eq_error_iff, Slot.firstFault_append, h e, ← h.ok_iff]
  simp only [hf _ e, exists_and_right]

theorem Writes.bind_ok (h : Writes x slots) (g : α → β) : Writes (x >>= fun a => .ok (g a)) slots := by
  have hb := h.bind fun a => writes_ok (g a)
  rwa [List.append_nil] at hb

theorem Writes.map (h : Writes x slots) (g : α → β) : Writes (x.map g) slots := by
  intro e
  rw [map_eq_error_iff, h e]

theorem writes_mapM (slotsOf : α → List Slot) {as : List α}
    (h : ∀ a ∈ as, Writes (f a) (slotsOf a)) : Writes (as.mapM f) (as.flatMap slotsOf) := by
  induction as with
  | nil => exact writes_ok []
  | cons a as ih =>
    obtain ⟨ha, has⟩ := List.forall_mem_cons.1 h
    rw [List.mapM_cons, List.flatMap_cons]
    exact ha.bind fun b => (ih has).bind_ok (b :: ·)

/-- Success and every failure are the same for both, whatever they compute. -/
def FailsAs (x : Except Failure α) (y : Except Failure β) : Prop :=
  ((∃ a, x = .ok a) ↔ ∃ b, y = .ok b) ∧ ∀ e, x = .error e ↔ y = .error e

theorem Writes.failsAs (h : Writes x slots) {y : Except Failure β} (hy : Writes y slots) :
    FailsAs x y := by
  refine ⟨?_, fun e => ?_⟩
  · rw [h.ok_iff, hy.ok_iff]
  · rw [h e, hy e]

theorem Number.writes_encode (width : Nat) (n : Int) : Writes (encode width n) [⟨width, n⟩] := by
  intro e
  rw [Slot.firstFault_cons]
  simp only [Slot.firstFault_nil, and_false, or_false, Slot.Fits, Slot.fault, encode]
  split
  · next hn =>
    simp [eq_comm, Int.not_le.2 hn]
  · split
    · next hn hb =>
      simp [Int.not_lt.2 hb, eq_comm]
    · next hn hb =>
      simp [Int.not_lt.1 hn, Int.not_le.1 hb]

theorem CompactSize.writes_encode {n : Nat} (h : n < 2 ^ 64) : Writes (encode n) [] := by
  have hl : (n : Int) ≤ largest := by
    simp only [largest]
    omega
  obtain ⟨w, hw⟩ := exists_encode (Int.natCast_nonneg n) hl
  rw [hw]
  exact writes_ok w

end Writes

end Wire

namespace Tx

open Wire

def Input.slots (input : Input) : List Slot := [⟨4, input.vout⟩, ⟨4, input.sequence⟩]

def Output.slots (output : Output) : List Slot := [⟨8, output.amount⟩]

theorem Input.writes_encode {input : Input} (h : input.script.length < 2 ^ 64) :
    Writes input.encode input.slots :=
  (Number.writes_encode 4 input.vout).bind fun _ => (CompactSize.writes_encode h).bind fun _ =>
    (Number.writes_encode 4 input.sequence).bind_ok _

theorem Output.writes_encode {output : Output} (h : output.script.length < 2 ^ 64) :
    Writes output.encode output.slots :=
  (Number.writes_encode 8 output.amount).bind fun _ => (CompactSize.writes_encode h).bind_ok _

theorem Witness.writes_encode {witness : Witness} (h : witness.items.length < 2 ^ 64)
    (hi : ∀ item ∈ witness.items, item.length < 2 ^ 64) : Writes witness.encode [] := by
  have hitem (item : Bytes) (hm : item ∈ witness.items) : Writes (encodeItem item) [] :=
    (CompactSize.writes_encode (hi item hm)).bind_ok _
  have hitems := writes_mapM (fun _ => []) hitem
  rw [List.flatMap_eq_nil_iff.2 fun _ _ => rfl] at hitems
  exact (CompactSize.writes_encode h).bind fun _ => hitems.bind_ok _

namespace Transaction

def slots (tx : Transaction) : List Slot :=
  ⟨4, tx.version⟩ :: (tx.inputs.flatMap Input.slots ++ (tx.outputs.flatMap Output.slots ++
    [⟨4, tx.locktime⟩]))

/-- No list, script or item is too long for its length to be written. -/
structure Sized (tx : Transaction) : Prop where
  inputs : tx.inputs.length < 2 ^ 64
  outputs : tx.outputs.length < 2 ^ 64
  unlocking : ∀ input ∈ tx.inputs, input.script.length < 2 ^ 64
  locking : ∀ output ∈ tx.outputs, output.script.length < 2 ^ 64
  witness : ∀ witness ∈ tx.witness, witness.items.length < 2 ^ 64 ∧
    ∀ item ∈ witness.items, item.length < 2 ^ 64

structure InRange (tx : Transaction) : Prop where
  version : 0 ≤ tx.version ∧ tx.version < 2 ^ 32
  vout : ∀ input ∈ tx.inputs, 0 ≤ input.vout ∧ input.vout < 2 ^ 32
  sequence : ∀ input ∈ tx.inputs, 0 ≤ input.sequence ∧ input.sequence < 2 ^ 32
  amount : ∀ output ∈ tx.outputs, 0 ≤ output.amount ∧ output.amount < 2 ^ 64
  locktime : 0 ≤ tx.locktime ∧ tx.locktime < 2 ^ 32

variable {tx : Transaction}

theorem slots_fit_iff : (∀ slot ∈ tx.slots, slot.Fits) ↔ tx.InRange := by
  have h4 : ((capacity 4 : Nat) : Int) = 2 ^ 32 := rfl
  have h8 : ((capacity 8 : Nat) : Int) = 2 ^ 64 := rfl
  simp only [slots, Input.slots, Output.slots, List.forall_mem_cons, List.forall_mem_append,
    List.forall_mem_flatMap, List.not_mem_nil, false_imp_iff, implies_true, and_true, Slot.Fits,
    h4, h8]
  constructor
  · intro h
    obtain ⟨hv, hi, ho, hl⟩ := h
    exact ⟨hv, fun input hm => (hi input hm).1, fun input hm => (hi input hm).2, ho, hl⟩
  · intro h
    exact ⟨h.version, fun input hm => ⟨h.vout input hm, h.sequence input hm⟩, h.amount, h.locktime⟩

section Sized

variable (h : tx.Sized)
include h

theorem Sized.writes_encodeInputs : Writes tx.encodeInputs (tx.inputs.flatMap Input.slots) := by
  have hinputs := writes_mapM Input.slots fun input hm => Input.writes_encode (h.unlocking input hm)
  exact (CompactSize.writes_encode h.inputs).bind fun _ => hinputs.bind_ok _

theorem Sized.writes_encodeOutputs : Writes tx.encodeOutputs (tx.outputs.flatMap Output.slots) := by
  have houtputs := writes_mapM Output.slots fun output hm =>
    Output.writes_encode (h.locking output hm)
  exact (CompactSize.writes_encode h.outputs).bind fun _ => houtputs.bind_ok _

/-- The witnesses add no number to those of the form without them. -/
theorem Sized.writes_encode : Writes tx.encode tx.slots := by
  have hwitness := writes_mapM (fun _ => []) fun witness hm =>
    Witness.writes_encode (h.witness witness hm).1 (h.witness witness hm).2
  rw [List.flatMap_eq_nil_iff.2 fun _ _ => rfl] at hwitness
  exact (Number.writes_encode 4 tx.version).bind fun _ => h.writes_encodeInputs.bind fun _ =>
    h.writes_encodeOutputs.bind fun _ => hwitness.bind fun _ =>
      (Number.writes_encode 4 tx.locktime).bind_ok _

theorem Sized.writes_stripped : Writes tx.stripped tx.slots :=
  (Number.writes_encode 4 tx.version).bind fun _ => h.writes_encodeInputs.bind fun _ =>
    h.writes_encodeOutputs.bind fun _ => (Number.writes_encode 4 tx.locktime).bind_ok _

theorem Sized.writes_print : Writes tx.print.value tx.slots := by
  have hencode := h.writes_encode
  intro e
  cases he : tx.encode with
  | ok w =>
    obtain ⟨fields, hd⟩ := display_of_encode he
    rw [print_of_display hd, ← hencode e, he]
    exact iff_of_false nofun nofun
  | error e' =>
    have hs : tx.stripped = .error e' := (h.writes_stripped e').2 ((hencode e').1 he)
    have hp : tx.print.value = .error e' := by
      simp only [print, printWith, displayWith, hs, Logged.value_bind, Logged.value_pure]
      rfl
    have hfirst := hencode e
    rw [he] at hfirst
    rw [hp, Except.error.injEq, ← hfirst, Except.error.injEq]

end Sized

def misfit : Transaction :=
  { inputs := [⟨[], 0, [], 2 ^ 32⟩], outputs := [⟨-1, []⟩], witness := [⟨[[]]⟩], locktime := -1 }

/-- Writing fails only with a number out of range, and then with the first one in the order of writing. So do
both names, the representation and the display. -/
theorem encode_fails_first (h : tx.Sized) :
    ((∃ w, tx.encode = .ok w) ↔ tx.InRange) ∧
    (∀ e, tx.encode = .error e ↔ Slot.FirstFault tx.slots e) ∧
    (∀ slot : Slot, slot.fault.families = [] ∧ slot.fault.message =
      if slot.value < 0 then "can't convert negative int to unsigned"
      else "int too big to convert") ∧
    FailsAs tx.txid tx.encode ∧ FailsAs tx.wtxid tx.encode ∧
    FailsAs (Element.transaction tx).describe tx.encode ∧ FailsAs tx.print.value tx.encode := by
  have hencode := h.writes_encode
  refine ⟨?_, hencode, fun slot => ⟨slot.families_fault, slot.message_fault⟩, ?_, ?_, ?_, ?_⟩
  · rw [hencode.ok_iff, slots_fit_iff]
  · exact (h.writes_stripped.map _).failsAs hencode
  · exact (hencode.map _).failsAs hencode
  · exact (hencode.map _).failsAs hencode
  · exact h.writes_print.failsAs hencode

theorem encode_fails_first_misfit :
    misfit.Sized ∧ misfit.encode = .error .numberTooBig ∧ misfit.txid = .error .numberTooBig ∧
      misfit.wtxid = .error .numberTooBig ∧
      (Element.transaction misfit).describe = .error .numberTooBig ∧
      misfit.print.value = .error .numberTooBig := by
  have hs : misfit.Sized := by
    constructor <;> decide
  obtain ⟨-, hfirst, -, htxid, hwtxid, hdescribe, hprint⟩ := encode_fails_first hs
  have he : misfit.encode = .error .numberTooBig := by
    refine (hfirst _).2 ⟨[⟨4, 1⟩, ⟨4, 0⟩], ⟨4, 2 ^ 32⟩, [⟨8, -1⟩, ⟨4, -1⟩], rfl, ?_, ?_, rfl⟩
    · decide
    · decide
  exact ⟨hs, he, (htxid.2 _).2 he, (hwtxid.2 _).2 he, (hdescribe.2 _).2 he, (hprint.2 _).2 he⟩

end Transaction

end Tx

end CoinWire
