/-!
Byte strings, and the numbers written in them with the least significant byte first.

`ofLittle` reads a number of any width and `toLittle` writes one in a given width; on numbers that fit
the width the two undo each other, and `toLittle` always produces exactly that many bytes.
-/

namespace CoinWire

abbrev Bytes := List UInt8

def ofLittle : Bytes → Nat
  | [] => 0
  | b :: rest => b.toNat + 256 * ofLittle rest

def toLittle : Nat → Nat → Bytes
  | 0, _ => []
  | width + 1, n => UInt8.ofNat n :: toLittle width (n / 256)

def capacity (width : Nat) : Nat := Nat.pow 256 width

theorem capacity_succ (width : Nat) : capacity (width + 1) = capacity width * 256 := rfl

@[simp] theorem length_toLittle (width n : Nat) : (toLittle width n).length = width := by
  induction width generalizing n with
  | zero => rfl
  | succ width ih => simp [toLittle, ih]

theorem ofLittle_lt (bs : Bytes) : ofLittle bs < capacity bs.length := by
  induction bs with
  | nil => decide
  | cons b rest ih =>
    have hb : b.toNat < 256 := b.toNat_lt
    simp only [ofLittle, List.length_cons, capacity_succ]
    omega

theorem ofLittle_toLittle {width n : Nat} (h : n < capacity width) :
    ofLittle (toLittle width n) = n := by
  induction width generalizing n with
  | zero =>
    obtain rfl : n = 0 := Nat.lt_one_iff.1 h
    rfl
  | succ width ih =>
    have hq : n / 256 < capacity width := by
      rw [capacity_succ] at h
      exact Nat.div_lt_of_lt_mul (by omega)
    simp only [toLittle, ofLittle, ih hq, UInt8.toNat_ofNat']
    omega

theorem toLittle_ofLittle (bs : Bytes) : toLittle bs.length (ofLittle bs) = bs := by
  induction bs with
  | nil => rfl
  | cons b rest ih =>
    have hb : b.toNat < 256 := b.toNat_lt
    have hq : (b.toNat + 256 * ofLittle rest) / 256 = ofLittle rest := by omega
    have hr : UInt8.ofNat (b.toNat + 256 * ofLittle rest) = b := by
      apply UInt8.toNat_inj.1
      rw [UInt8.toNat_ofNat']
      omega
    simp [toLittle, ofLittle, hq, hr, ih]

end CoinWire
