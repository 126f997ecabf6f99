import CoinWire.Text.Scientific
import CoinWire.Text.Value

/-!
How a value is fitted into its place in a line: as what it is written, in how much room, and to which side.

Between a field's name and the rest of a line stand flags, a width, a precision and the letter of the
conversion, in this order, and all but the letter may be missing. Letters for the size of a number are
passed over.
-/

namespace CoinWire.Text

inductive Conversion
  | percent
  | text
  | quoted
  | ascii
  | character
  | decimal
  | octal
  | hex
  | fixed
  | scientific
  | general
  deriving DecidableEq, Repr

def Conversion.letters : List (Char × Conversion) :=
  [('%', percent), ('s', text), ('r', quoted), ('a', ascii), ('c', character), ('d', decimal),
    ('i', decimal), ('u', decimal), ('o', octal), ('x', hex), ('f', fixed), ('e', scientific),
    ('g', general)]

def Conversion.ofLetter? (letter : Char) : Option Conversion :=
  letters.lookup letter.toLower

structure Fit where
  left : Bool := false
  plus : Bool := false
  blank : Bool := false
  alternate : Bool := false
  zero : Bool := false
  width : Nat := 0
  precision : Option Nat := none
  conversion : Conversion := .text
  capital : Bool := false
  deriving DecidableEq, Repr

namespace Fit

def isFlag (c : Char) : Bool :=
  c = '-' ∨ c = '+' ∨ c = ' ' ∨ c = '#' ∨ c = '0'

def withFlag (fit : Fit) (c : Char) : Fit :=
  if c = '-' then { fit with left := true }
  else if c = '+' then { fit with plus := true }
  else if c = ' ' then { fit with blank := true }
  else if c = '#' then { fit with alternate := true }
  else { fit with zero := true }

def natOf (digits : List Char) : Nat :=
  digits.foldl (fun n c => 10 * n + (c.toNat - '0'.toNat)) 0

/-- A precision without digits is zero. -/
def readPrecision : List Char → Option Nat × List Char
  | '.' :: rest => (some (natOf (rest.takeWhile Char.isDigit)), rest.dropWhile Char.isDigit)
  | rest => (none, rest)

def dropSize : List Char → List Char
  | c :: rest => if c = 'h' ∨ c = 'l' ∨ c = 'L' then rest else c :: rest
  | [] => []

def read? (text : List Char) : Option (Fit × List Char) :=
  let flagged := (text.takeWhile isFlag).foldl withFlag {}
  let rest := text.dropWhile isFlag
  let width := natOf (rest.takeWhile Char.isDigit)
  let (precision, rest) := readPrecision (rest.dropWhile Char.isDigit)
  match dropSize rest with
  | letter :: rest =>
    (Conversion.ofLetter? letter).map fun conversion =>
      ({ flagged with width, precision, conversion, capital := letter.isUpper }, rest)
  | [] => none

def pad (fit : Fit) (text : List Char) : List Char :=
  let fill := List.replicate (fit.width - text.length) ' '
  if fit.left then text ++ fill else fill ++ text

def cut (fit : Fit) (text : List Char) : List Char :=
  match fit.precision with
  | some n => text.take n
  | none => text

def sign (fit : Fit) (n : Int) : List Char :=
  if n < 0 then ['-'] else if fit.plus then ['+'] else if fit.blank then [' '] else []

def zeros (count : Nat) (digits : List Char) : List Char :=
  List.replicate (count - digits.length) '0' ++ digits

def signed (fit : Fit) (n : Int) (mark body : List Char) : List Char :=
  let front := fit.sign n ++ mark
  let body := if fit.zero ∧ ¬ fit.left then zeros (fit.width - front.length) body else body
  fit.pad (front ++ body)

/-- The mark of the base is left out unless it is asked for. -/
def whole (fit : Fit) (mark : List Char) (base : Nat) (n : Int) : List Char :=
  fit.signed n (if fit.alternate then mark else [])
    (zeros (fit.precision.getD 0) (Nat.toDigits base n.natAbs))

/-- A number with a point has six places, or six digits, unless a precision is given. -/
def pointed (fit : Fit) (write : Bool → Nat → Nat → List Char) (n : Int) : List Char :=
  fit.signed n [] (write fit.alternate (fit.precision.getD 6) n.natAbs)

def shown (fit : Fit) (value : Value) : List Char :=
  match fit.conversion with
  | .quoted => fit.pad (fit.cut value.quoted.toList)
  | .ascii => fit.pad (fit.cut value.ascii.toList)
  | .character => fit.pad value.plain.toList
  | _ => fit.pad (fit.cut value.plain.toList)

def integer (fit : Fit) (n : Int) : List Char :=
  match fit.conversion with
  | .character => fit.pad [Char.ofNat n.toNat]
  | .decimal => fit.whole [] 10 n
  | .octal => fit.whole ['0', 'o'] 8 n
  | .hex => fit.whole ['0', 'x'] 16 n
  | .fixed => fit.pointed Scientific.fixed n
  | .scientific => fit.pointed Scientific.scientific n
  | .general => fit.pointed Scientific.general n
  | _ => fit.shown (.number n)

def value (fit : Fit) : Value → List Char
  | .number n => if fit.capital then (fit.integer n).map Char.toUpper else fit.integer n
  | value => fit.shown value

end Fit

end CoinWire.Text
