/-!
Paths of files, seen from a directory. Every way of writing a path is brought to one form: its parts between
slashes, without empty ones and single dots, and with two dots taken back together with the part before
them. Only where there is no part before them do two dots stay, and lead out of the directory.
-/

namespace CoinWire.Log.Path

def parts (text : List Char) : List (List Char) :=
  text.foldr (fun c done =>
    if c = '/' then [] :: done
    else match done with
      | part :: rest => (c :: part) :: rest
      | [] => [[c]]) [[]]

def back : List Char := ['.', '.']

/-- Goes one part further; the last part gone is the first of the list. -/
def enter (gone : List (List Char)) (part : List Char) : List (List Char) :=
  if part = [] ∨ part = ['.'] then gone
  else if part = back then
    match gone with
    | [] => [back]
    | last :: before => if last = back then back :: gone else before
  else part :: gone

def resolve (parts : List (List Char)) : List (List Char) :=
  (parts.foldl enter []).reverse

def isAbsolute (text : String) : Bool :=
  text.toList.head? = some '/'

/-- Nothing lies above the root. -/
def normal (text : String) : String :=
  let whole := resolve (parts text.toList)
  if isAbsolute text then "/" ++ "/".intercalate ((whole.dropWhile (· = back)).map String.ofList)
  else "/".intercalate (whole.map String.ofList)

def isBelow (text : String) : Bool :=
  !isAbsolute text && (resolve (parts text.toList)).head?.any (· ≠ back)

/-- No file has a name with a null character in it. -/
def isValid (text : String) : Bool :=
  !text.toList.contains '\x00'

end CoinWire.Log.Path
