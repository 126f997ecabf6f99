import CoinWire.Wire.Number

/-!
Counts and lengths in the compact form: one byte up to 252, else a marker byte that tells the width of the
number after it. A number is written in the narrowest form it fits, and read only from that one.
-/

namespace CoinWire.Wire.CompactSize

/-- A form with a marker, and the least number that needs it. -/
structure Form where
  marker : Nat
  width : Nat
  least : Nat
  deriving DecidableEq, Repr

def forms : List Form :=
  [⟨0xfd, 2, 0xfd⟩, ⟨0xfe, 4, 0x10000⟩, ⟨0xff, 8, 0x100000000⟩]

def form? (marker : Int) : Option Form :=
  forms.find? fun form => (form.marker : Int) = marker

/-- The width of the number after a marker, or 0 where the byte is itself the number. -/
def width (marker : Int) : Nat :=
  match form? marker with
  | some form => form.width
  | none => 0

def largest : Int := 0xffffffffffffffff

def encode (n : Int) : Except Failure Bytes :=
  if n < 0 ∨ largest < n then .error .sizeOutOfBounds
  else if n ≤ 0xfc then .ok [UInt8.ofNat n.toNat]
  else match forms.find? fun form => n < capacity form.width with
    | some form => .ok (UInt8.ofNat form.marker :: toLittle form.width n.toNat)
    | none => .error (.unwritable s!"No CompactSize prefix fits {n}")

def read : Reader Nat := do
  let first ← Number.read 1 "compact-size prefix"
  match form? first with
  | none => pure first
  | some form => do
    let value ← Number.read form.width
      ("compact-size value for prefix 0x" ++ Hex.ofNat form.marker)
    if value < form.least then throw (.nonCanonical value form.marker)
    else pure value

end CoinWire.Wire.CompactSize
