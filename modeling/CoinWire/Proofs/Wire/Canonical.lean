import CoinWire.Proofs.Wire.Refusal
import Mathlib.Order.Bounds.Defs

/-!
Every number up to the largest has one compact form, the shortest that holds it. Reading takes just these
forms and refuses whatever starts with none of them. Writing refuses only the numbers outside the range:
inside it a form is always found.
-/

namespace CoinWire.Wire.CompactSize

/-- How many numbers, from zero on, the form of a given length holds. Forms have four lengths. -/
def room : Nat → Nat
  | 1 => 0xfd
  | 3 => capacity 2
  | 5 => capacity 4
  | 9 => capacity 8
  | _ => 0

section Encode

theorem exists_find_form {n : Int} (hl : n ≤ largest) :
    ∃ form, (forms.find? fun form => n < capacity form.width) = some form := by
  have hn : n < (capacity 8 : Nat) := by
    have hc : capacity 8 = 0x10000000000000000 := rfl
    simp only [largest] at hl
    omega
  have hfind : (forms.find? fun form => n < capacity form.width).isSome := by
    rw [List.find?_isSome]
    exact ⟨⟨0xff, 8, 0x100000000⟩, mem_forms.2 (.inr (.inr rfl)), decide_eq_true hn⟩
  exact Option.isSome_iff_exists.1 hfind

theorem exists_encode {n : Int} (h0 : 0 ≤ n) (hl : n ≤ largest) : ∃ w, encode n = .ok w := by
  have hin : ¬ (n < 0 ∨ largest < n) := by
    omega
  by_cases hn : n ≤ 0xfc
  · rw [encode, if_neg hin, if_pos hn]
    exact ⟨_, rfl⟩
  · obtain ⟨form, hf⟩ := exists_find_form hl
    rw [encode, if_neg hin, if_neg hn, hf]
    exact ⟨_, rfl⟩

theorem encode_eq_error_iff {n : Int} {e : Failure} :
    encode n = .error e ↔ ¬ (0 ≤ n ∧ n ≤ largest) ∧ e = .sizeOutOfBounds := by
  by_cases hr : 0 ≤ n ∧ n ≤ largest
  · obtain ⟨w, hw⟩ := exists_encode hr.1 hr.2
    simp [hw, hr]
  · have hout : n < 0 ∨ largest < n := by
      omega
    rw [encode, if_pos hout, Except.error.injEq]
    simp [hr, eq_comm]

theorem exists_encode_iff {n : Int} : (∃ w, encode n = .ok w) ↔ 0 ≤ n ∧ n ≤ largest := by
  constructor
  · intro h
    obtain ⟨w, hw⟩ := h
    by_contra hn
    cases hw.symm.trans (encode_eq_error_iff.2 ⟨hn, rfl⟩)
  · intro h
    exact exists_encode h.1 h.2

variable {n : Nat} {w : Bytes}

theorem width_of_form {form : Form} (hf : form ∈ forms) : width form.marker = form.width := by
  rw [width, form?_eq_some_iff.2 ⟨hf, rfl⟩]

theorem width_of_lt {first : Nat} (h : first < 0xfd) : width first = 0 := by
  rw [width, (form?_eq_none_iff (Nat.lt_trans h (by decide))).2 h]

/-- A form starts where all shorter ones have ended. -/
theorem room_le_least {form : Form} (hf : form ∈ forms) :
    ∀ length < form.width + 1, room length ≤ form.least := by
  obtain rfl | rfl | rfl := mem_forms.1 hf
  · decide
  · decide
  · decide

theorem room_of_form {form : Form} (hf : form ∈ forms) :
    room (form.width + 1) = capacity form.width := by
  obtain rfl | rfl | rfl := mem_forms.1 hf
  · rfl
  · rfl
  · rfl

theorem isLeast_form {form : Form} (hf : form ∈ forms) (hl : form.least ≤ n)
    (hu : n < capacity form.width) : IsLeast {length | n < room length} (form.width + 1) := by
  constructor
  · change n < room (form.width + 1)
    rwa [room_of_form hf]
  · intro length hr
    by_contra hlt
    have hroom := room_le_least hf length (Nat.lt_of_not_le hlt)
    exact absurd (Nat.lt_of_lt_of_le hr hroom) (Nat.not_lt.2 hl)

theorem isLeast_one (hn : n < 0xfd) : IsLeast {length | n < room length} 1 := by
  refine ⟨hn, fun length hr => Nat.one_le_iff_ne_zero.2 ?_⟩
  rintro rfl
  exact Nat.not_lt_zero n hr

/-- The first byte tells the length, which is the least possible. -/
theorem length_of_encode (h : encode n = .ok w) : ∃ first rest, w = first :: rest ∧
    w.length = 1 + width (first.toNat : Int) ∧ IsLeast {length | n < room length} w.length := by
  obtain ⟨hn, rfl⟩ | ⟨form, hf, hl, hu, rfl⟩ := encode_eq_ok_iff.1 h
  · have hfirst : (UInt8.ofNat n).toNat = n := UInt8.toNat_ofNat_of_lt' (Nat.lt_trans hn (by decide))
    refine ⟨_, _, rfl, ?_, isLeast_one hn⟩
    rw [hfirst, width_of_lt hn]
    rfl
  · have hfirst : (UInt8.ofNat form.marker).toNat = form.marker :=
      UInt8.toNat_ofNat_of_lt' (marker_lt hf)
    have hlen : (UInt8.ofNat form.marker :: toLittle form.width n).length = form.width + 1 := by
      rw [List.length_cons, length_toLittle]
    refine ⟨_, _, rfl, ?_, ?_⟩
    · rw [hlen, hfirst, width_of_form hf, Nat.add_comm]
    · rw [hlen]
      exact isLeast_form hf hl hu

end Encode

theorem run_read_refused {bytes : Bytes} (h : ∀ (m : Int) j, encode m ≠ .ok (bytes.take j)) :
    ∃ e s, (Stream.mk bytes 0).run read = (.error e, s) ∧ Family.read ∈ e.families := by
  simp only [Stream.run, Stream.unread, List.drop_zero]
  cases hr : read bytes with
  | ok m rest =>
    obtain ⟨w, hw, rfl⟩ := (takes_read _ _ _).1 hr
    have hform := h m w.length
    rw [List.take_left' rfl] at hform
    exact absurd hw hform
  | error e rest => exact ⟨e, _, rfl, refuses_read.read_of_never hr⟩

/-- Reading and writing undo each other, and each fails, in its own family, wherever the other has nothing to
undo. The form of a number is the shortest that holds it. -/
theorem read_encode_exact (bytes : Bytes) (k : Nat) (n : Int) :
    ((∃ m : Nat, n = m ∧ (Stream.mk bytes 0).run read = (.ok m, ⟨bytes, k⟩)) ↔
      0 ≤ n ∧ n ≤ largest ∧ k ≤ bytes.length ∧ encode n = .ok (bytes.take k)) ∧
    ((∀ m j, encode m ≠ .ok (bytes.take j)) → ∃ e s, (Stream.mk bytes 0).run read = (.error e, s) ∧
      Family.read ∈ e.families) ∧
    ((∃ w, encode n = .ok w) ↔ 0 ≤ n ∧ n ≤ largest) ∧
    (∀ e, encode n = .error e → Family.write ∈ e.families) ∧
    (n ≤ largest → (forms.find? fun form => n < capacity form.width).isSome) ∧
    ∀ w, encode n = .ok w → ∃ first rest, w = first :: rest ∧
      w.length = 1 + width (first.toNat : Int) ∧ IsLeast {length | n < room length} w.length := by
  refine ⟨?_, run_read_refused, exists_encode_iff, fun e he => ?_, fun hl => ?_, fun w hw => ?_⟩
  · constructor
    · intro h
      obtain ⟨m, rfl, hr⟩ := h
      obtain ⟨hk, he⟩ := takes_read.run_eq_ok_iff.1 hr
      obtain ⟨h0, hl⟩ := exists_encode_iff.1 ⟨_, he⟩
      exact ⟨h0, hl, hk, he⟩
    · intro h
      obtain ⟨h0, -, hk, he⟩ := h
      obtain ⟨m, rfl⟩ := Int.eq_ofNat_of_zero_le h0
      exact ⟨m, rfl, takes_read.run_eq_ok_iff.2 ⟨hk, he⟩⟩
  · obtain ⟨-, rfl⟩ := encode_eq_error_iff.1 he
    decide
  · obtain ⟨form, hf⟩ := exists_find_form hl
    rw [hf]
    rfl
  · obtain ⟨h0, -⟩ := exists_encode_iff.1 ⟨w, hw⟩
    obtain ⟨m, rfl⟩ := Int.eq_ofNat_of_zero_le h0
    simp only [Int.ofNat_lt]
    exact length_of_encode hw

end CoinWire.Wire.CompactSize
