import CoinWire.Log.Level
import CoinWire.Text.Fit
import CoinWire.Text.Word

/-!
How an entry is laid out as a line: literal characters, and the fields of the entry in the notation
`%(field)` with what says how the field is fitted in. Without a field the entry is fitted in as a whole. An
empty text lays out the bare message; a text that mentions no field at all is refused.

What counts as a mention is wider than what is ever printed: the field need not be known, and width and
precision may be in the digits of any script or left open by a star.
-/

namespace CoinWire.Log

open Text (Fit Value)

structure Entry where
  logger : String
  level : Level
  message : String
  deriving DecidableEq, Repr

/-- Where and when an entry was written is not known here. -/
def Entry.fields (entry : Entry) : List (String × Value) :=
  [("name", .text entry.logger), ("msg", .text entry.message), ("args", .row []),
    ("levelname", .text entry.level.name), ("levelno", .number entry.level),
    ("pathname", .text ""), ("filename", .text ""), ("module", .text ""), ("exc_info", .nothing),
    ("exc_text", .nothing), ("stack_info", .nothing), ("message", .text entry.message)]

def Entry.field (entry : Entry) (name : String) : Value :=
  (entry.fields.lookup name).getD (.text "")

inductive Piece
  | literal (c : Char)
  | field (name : String) (fit : Fit)
  | whole (fit : Fit)
  deriving DecidableEq, Repr

namespace Piece

def fitted (fit : Fit) (value : Value) : List Char :=
  if fit.conversion = .percent then ['%'] else fit.value value

def print (entry : Entry) : Piece → List Char
  | literal c => [c]
  | field name fit => fitted fit (entry.field name)
  | whole fit => fitted fit (.record entry.fields)

/-- Reads one piece. A percent sign that no conversion follows stands for itself. -/
def read (c : Char) (rest : List Char) : Piece × List Char :=
  if c ≠ '%' then (literal c, rest)
  else
    let (piece, after) := match rest with
      | '(' :: rest =>
        (field (String.ofList (rest.takeWhile (· ≠ ')'))), (rest.dropWhile (· ≠ ')')).drop 1)
      | rest => (whole, rest)
    match Fit.read? after with
    | some (fit, rest) => (piece fit, rest)
    | none => (literal c, rest)

def readAll : Nat → List Char → List Piece
  | 0, _ => []
  | _, [] => []
  | fuel + 1, c :: rest =>
    let (piece, rest) := read c rest
    piece :: readAll fuel rest

end Piece

structure Layout where
  pieces : List Piece
  deriving DecidableEq, Repr

namespace Layout

def print (layout : Layout) (entry : Entry) : String :=
  String.ofList (layout.pieces.flatMap (Piece.print entry))

/-- What holds where no layout is asked for. -/
def standard : String := "%(asctime)s [%(name)s] [%(levelname)s]: %(message)s"

def message : Layout := ⟨[.field "message" {}]⟩

/-- The letters of the conversions in both cases, with those outside ASCII whose other case is inside. -/
def conversions : List Char :=
  "diouxefgcrsaDIOUXEFGCRSA%İıſ".toList

def dropExtent : List Char → List Char
  | '*' :: rest => rest
  | text => text.dropWhile Text.isDecimal

def dropPrecision : List Char → List Char
  | '.' :: rest => if dropExtent rest = rest then '.' :: rest else dropExtent rest
  | text => text

def startsField : List Char → Bool
  | '%' :: '(' :: text =>
    match text.dropWhile Text.isWord with
    | ')' :: rest =>
      let fitted := dropPrecision (dropExtent (rest.dropWhile Fit.isFlag))
      (text.head?.any Text.isWord) && fitted.head?.any conversions.contains
    | _ => false
  | _ => false

def mentionsField : List Char → Bool
  | [] => false
  | c :: rest => startsField (c :: rest) || mentionsField rest

def ofText? (text : String) : Option Layout :=
  if text.isEmpty then some message
  else if mentionsField text.toList then some ⟨Piece.readAll text.length text.toList⟩
  else none

end Layout

end CoinWire.Log
