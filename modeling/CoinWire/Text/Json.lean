/-!
Documents of nested arrays and objects, and their printed form: fields in the order given, one element a
line, two more spaces a level, and an empty array or object on one line.
-/

namespace CoinWire

inductive Json
  | bool (value : Bool)
  | number (value : Int)
  | text (value : String)
  | array (elements : List Json)
  | object (fields : List (String × Json))

namespace Json

def letters : List (Char × Char) :=
  [('\x08', 'b'), ('\x0c', 'f'), ('\n', 'n'), ('\r', 'r'), ('\t', 't')]

def numbered (n : Nat) : List Char :=
  ['\\', 'u', Nat.digitChar (n / 0x1000), Nat.digitChar (n / 0x100 % 16),
    Nat.digitChar (n / 0x10 % 16), Nat.digitChar (n % 16)]

def highHalf (n : Nat) : Nat := 0xd800 + (n - 0x10000) / 0x400

def lowHalf (n : Nat) : Nat := 0xdc00 + (n - 0x10000) % 0x400

/-- A character inside quotes: quote and backslash are marked, and what is not printable ASCII has a letter or
is numbered, in two halves if 16 bits are not enough. -/
def escape (c : Char) : List Char :=
  if c = '"' ∨ c = '\\' then ['\\', c]
  else match letters.lookup c with
    | some letter => ['\\', letter]
    | none =>
      if 0x20 ≤ c.toNat ∧ c.toNat ≤ 0x7e then [c]
      else if c.toNat < 0x10000 then numbered c.toNat
      else numbered (highHalf c.toNat) ++ numbered (lowHalf c.toNat)

def quote (text : String) : List Char :=
  '"' :: (text.toList.flatMap escape ++ ['"'])

def newline (depth : Nat) : List Char :=
  '\n' :: List.replicate (2 * depth) ' '

def comma (last : Bool) : List Char :=
  if last then [] else [',']

mutual

def chars (depth : Nat) : Json → List Char
  | bool true => "true".toList
  | bool false => "false".toList
  | number n => (toString n).toList
  | text s => quote s
  | array elements =>
    if elements.isEmpty then ['[', ']']
    else '[' :: (elementChars (depth + 1) elements ++ (newline depth ++ [']']))
  | object fields =>
    if fields.isEmpty then ['\x7b', '\x7d']
    else '\x7b' :: (fieldChars (depth + 1) fields ++ (newline depth ++ ['\x7d']))

def elementChars (depth : Nat) : List Json → List Char
  | [] => []
  | element :: rest =>
    newline depth ++ (chars depth element ++ (comma rest.isEmpty ++ elementChars depth rest))

def fieldChars (depth : Nat) : List (String × Json) → List Char
  | [] => []
  | (key, value) :: rest =>
    newline depth ++ (quote key ++ (':' :: ' ' :: (chars depth value ++
      (comma rest.isEmpty ++ fieldChars depth rest))))

end

def print (document : Json) : String :=
  String.ofList (document.chars 0)

end Json

end CoinWire
