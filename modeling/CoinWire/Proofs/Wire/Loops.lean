import CoinWire.Proofs.Wire.WrittenForm
import Mathlib.Data.List.Chain

/-!
Counted loops of a reader, iteration by iteration. How often a loop is to be run is whatever the data
declares, but each iteration takes what its element needs. So the iterations begun are bounded by what
there is to read, and a number of elements that what there is cannot hold is refused.
-/

namespace CoinWire.Wire.Reader

variable {α : Type} {reader : Reader α} {written : α → Bytes → Prop} {least : Nat}

/-- Wherever the reader succeeds it takes at least so many bytes. -/
def Consumes (reader : Reader α) (least : Nat) : Prop :=
  ∀ ⦃unread a rest⦄, reader unread = .ok a rest → rest.length + least ≤ unread.length

theorem Takes.consumes (h : Takes reader written)
    (hw : ∀ a w, written a w → least ≤ w.length) : reader.Consumes least := by
  intro unread a rest hr
  obtain ⟨w, hform, rfl⟩ := (h _ _ _).1 hr
  have hl := hw a w hform
  rw [List.length_append]
  omega

/-- The iterations of a loop up to the first that fails, each by what is unread when it begins. -/
def begun (reader : Reader α) : Nat → Bytes → List Bytes
  | 0, _ => []
  | count + 1, unread => unread :: match reader unread with
    | .ok _ rest => begun reader count rest
    | .error _ _ => []

theorem begun_of_ok {unread rest : Bytes} {a : α} (h : reader unread = .ok a rest) (count : Nat) :
    reader.begun (count + 1) unread = unread :: reader.begun count rest := by
  rw [begun, h]

theorem begun_of_error {unread rest : Bytes} {e : Failure} (h : reader unread = .error e rest)
    (count : Nat) : reader.begun (count + 1) unread = [unread] := by
  rw [begun, h]

theorem many_succ_eq_error_iff {count : Nat} {unread rest : Bytes} {e : Failure} :
    many (count + 1) reader unread = .error e rest ↔ reader unread = .error e rest ∨
      ∃ a between, reader unread = .ok a between ∧ many count reader between = .error e rest := by
  have hpure (a : α) (between : Bytes) :
      (do let found ← many count reader; pure (a :: found)) between = .error e rest ↔
        many count reader between = .error e rest := by
    rw [run_bind_eq_error_iff]
    exact or_iff_left nofun
  simp only [many_succ, run_bind_eq_error_iff, hpure]

theorem many_eq_error_iff {count : Nat} {unread rest : Bytes} {e : Failure} :
    many count reader unread = .error e rest ↔
      ∃ before ∈ reader.begun count unread, reader before = .error e rest := by
  induction count generalizing unread with
  | zero =>
    simp only [begun, List.not_mem_nil, false_and, exists_false, iff_false]
    exact nofun
  | succ count ih =>
    rw [many_succ_eq_error_iff]
    cases hr : reader unread with
    | error e' rest' =>
      rw [begun_of_error hr]
      simp [hr]
    | ok a between =>
      rw [begun_of_ok hr]
      simp [hr, ih]

theorem isChain_begun (count : Nat) (unread : Bytes) :
    (reader.begun count unread).IsChain fun before after => ∃ a, reader before = .ok a after := by
  induction count generalizing unread with
  | zero => exact .nil
  | succ count ih =>
    cases hr : reader unread with
    | error e rest =>
      rw [begun_of_error hr]
      exact .singleton unread
    | ok a rest =>
      rw [begun_of_ok hr]
      refine List.isChain_cons.2 ⟨fun after ha => ⟨a, ?_⟩, ih rest⟩
      cases count with
      | zero => cases ha
      | succ count =>
        obtain rfl := Option.some.inj ha
        exact hr

section Consumes

variable (h : reader.Consumes least)
include h

theorem Consumes.length_begun (count : Nat) (unread : Bytes) :
    least * (reader.begun count unread).length ≤ unread.length + least := by
  induction count generalizing unread with
  | zero => simp [begun]
  | succ count ih =>
    cases hr : reader unread with
    | error e rest =>
      rw [begun_of_error hr]
      simp
    | ok a rest =>
      have hrest := ih rest
      have htaken := h hr
      rw [begun_of_ok hr, List.length_cons, Nat.mul_succ]
      omega

theorem Consumes.many {count : Nat} {unread rest : Bytes} {found : List α}
    (hm : many count reader unread = .ok found rest) :
    rest.length + least * count ≤ unread.length := by
  induction count generalizing unread found with
  | zero =>
    obtain ⟨-, rfl⟩ := EStateM.Result.ok.inj hm
    simp
  | succ count ih =>
    simp only [many_succ, run_bind_eq_ok_iff] at hm
    obtain ⟨a, between, hr, others, behind, hothers, hp⟩ := hm
    obtain ⟨-, rfl⟩ := EStateM.Result.ok.inj hp
    have hleft := ih hothers
    have htaken := h hr
    rw [Nat.mul_succ]
    omega

theorem Consumes.many_refused {count : Nat} {unread : Bytes} (hl : unread.length < least * count) :
    ∃ e rest, Reader.many count reader unread = .error e rest := by
  cases hm : Reader.many count reader unread with
  | error e rest => exact ⟨e, rest, rfl⟩
  | ok found rest =>
    have hlen := h.many hm
    omega

end Consumes

end CoinWire.Wire.Reader
