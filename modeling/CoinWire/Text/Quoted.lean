import CoinWire.Text.Printable

/-!
Text in quotes, as it is shown in a log: single quotes, unless the text holds one and no double quote.

The quote in use, the backslash and every character that is not to be shown as itself are written as
escapes, the others as they are. Those shown as themselves are the printable ones, in `encodeAscii` only
the printable ones of ASCII.
-/

namespace CoinWire.Text.Quoted

def hexDigits (width n : Nat) : List Char :=
  let digits := Nat.toDigits 16 n
  List.replicate (width - digits.length) '0' ++ digits

def numbered (c : Char) : List Char :=
  if c.toNat ≤ 0xff then '\\' :: 'x' :: hexDigits 2 c.toNat
  else if c.toNat ≤ 0xffff then '\\' :: 'u' :: hexDigits 4 c.toNat
  else '\\' :: 'U' :: hexDigits 8 c.toNat

def escape (shown : Char → Bool) (mark c : Char) : List Char :=
  if c = mark ∨ c = '\\' then ['\\', c]
  else if c = '\t' then ['\\', 't']
  else if c = '\n' then ['\\', 'n']
  else if c = '\r' then ['\\', 'r']
  else if shown c then [c]
  else numbered c

def mark (text : List Char) : Char :=
  if text.contains '\x27' ∧ ¬ text.contains '"' then '"' else '\x27'

def encodeBy (shown : Char → Bool) (text : String) : String :=
  let quote := mark text.toList
  String.ofList (quote :: (text.toList.flatMap (escape shown quote) ++ [quote]))

def encode : String → String := encodeBy isPrintable

def encodeAscii : String → String := encodeBy fun c => isPrintable c && c.toNat < 0x80

def encodeList (texts : List String) : String :=
  "[" ++ ", ".intercalate (texts.map encode) ++ "]"

end CoinWire.Text.Quoted
