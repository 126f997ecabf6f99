/-!
Numbers written with a decimal point: with a given count of places, in scientific notation, or in general
notation, which is the first of the two unless the number is too long for its count of digits.

A number is first brought to 53 significant bits and then to the digits that are shown. Every rounding goes
to the nearest neighbour, and from the middle between two of them to the even one.
-/

namespace CoinWire.Text.Scientific

def roundDiv (n d : Nat) : Nat :=
  if 2 * (n % d) < d ∨ 2 * (n % d) = d ∧ n / d % 2 = 0 then n / d else n / d + 1

def significantBits : Nat := 53

/-- The nearest number that is a multiple of a power of two by at most 53 bits. -/
def nearest (n : Nat) : Nat :=
  let unit := Nat.pow 2 (n.log2 + 1 - significantBits)
  roundDiv n unit * unit

/-- The first digits of a number, rounded, and the power of ten that the first of them counts. -/
def leading (count n : Nat) : List Char × Nat :=
  let all := Nat.toDigits 10 n
  if all.length ≤ count then (all ++ List.replicate (count - all.length) '0', all.length - 1)
  else
    let digits := Nat.toDigits 10 (roundDiv n (Nat.pow 10 (all.length - count)))
    (digits.take count, all.length - 1 + (digits.length - count))

def withPoint (point : Bool) (whole fraction : List Char) : List Char :=
  if fraction.isEmpty && !point then whole else whole ++ '.' :: fraction

def power (exponent : Nat) : List Char :=
  let digits := Nat.toDigits 10 exponent
  'e' :: '+' :: (List.replicate (2 - digits.length) '0' ++ digits)

def fixed (point : Bool) (places n : Nat) : List Char :=
  withPoint point (Nat.toDigits 10 (nearest n)) (List.replicate places '0')

def scientific (point : Bool) (places n : Nat) : List Char :=
  let (digits, exponent) := leading (places + 1) (nearest n)
  withPoint point (digits.take 1) (digits.drop 1) ++ power exponent

def dropZeros (fraction : List Char) : List Char :=
  (fraction.reverse.dropWhile (· = '0')).reverse

def general (point : Bool) (count n : Nat) : List Char :=
  let count := max count 1
  let (digits, exponent) := leading count (nearest n)
  let shown (fraction : List Char) := if point then fraction else dropZeros fraction
  if exponent < count then
    withPoint point (digits.take (exponent + 1)) (shown (digits.drop (exponent + 1)))
  else withPoint point (digits.take 1) (shown (digits.drop 1)) ++ power exponent

end CoinWire.Text.Scientific
