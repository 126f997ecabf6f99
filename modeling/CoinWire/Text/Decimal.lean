/-!
Integers in decimal, under a limit on their digits.

A runtime may refuse to write an integer of more digits than its limit. It then refuses whatever the integer
was to be part of, and tells of the limit instead. Hexadecimal is not limited, and lengths, positions and
counts of bytes never come near a limit.
-/

namespace CoinWire

/-- The most digits that an integer is written with, where there is a limit at all. -/
class DigitLimit where
  most? : Option Nat
  enough : ∀ most ∈ most?, 640 ≤ most

/-- The limit of a program that does not set one. -/
instance : DigitLimit where
  most? := some 4300
  enough := by simp

namespace Decimal

variable [DigitLimit] {n : Int}

def Writable (n : Int) : Prop :=
  ∀ most ∈ DigitLimit.most?, (Nat.toDigits 10 n.natAbs).length ≤ most

instance : DecidablePred Writable := fun n => inferInstanceAs
  (Decidable (∀ most ∈ DigitLimit.most?, (Nat.toDigits 10 n.natAbs).length ≤ most))

def excess : String :=
  match DigitLimit.most? with
  | some most =>
    s!"Exceeds the limit ({most} digits) for integer string conversion; " ++
      "use sys.set_int_max_str_digits() to increase the limit"
  | none => ""

/-- The text that `n` is part of, or why there is none. -/
def told (n : Int) (text : String) : String :=
  if Writable n then text else excess

theorem writable_of_unlimited (h : DigitLimit.most? = none) (n : Int) : Writable n := by
  intro most hm
  rw [h] at hm
  cases hm

theorem writable_of_lt_hundred (h : n.natAbs < 100) : Writable n := by
  have htwo : ∀ k < 100, (Nat.toDigits 10 k).length ≤ 2 := by decide
  intro most hm
  calc
    (Nat.toDigits 10 n.natAbs).length ≤ 2 := htwo n.natAbs h
    _ ≤ 640 := by decide
    _ ≤ most := DigitLimit.enough most hm

end Decimal

/-- The limit of a program that does not set one lies between these numbers. -/
example : Decimal.Writable (10 ^ 4300 - 1) ∧ ¬ Decimal.Writable (10 ^ 4300) := by
  decide +kernel

end CoinWire
