import CoinWire.Text.Blank

/-!
The one setting of the script decoder: whether bytes may follow a complete script.

It is read from a text such as an environment variable holds. Blanks around it and the case of its
letters do not matter.
-/

namespace CoinWire

structure Settings where
  allowTrailing : Bool := false
  deriving DecidableEq, Repr

namespace Settings

def affirmatives : List String := ["1", "true", "yes", "on"]

def ofText (text : String) : Settings :=
  ⟨affirmatives.contains (String.ofList ((Text.trim text.toList).map Char.toLower))⟩

def ofVariable : Option String → Settings
  | some text => ofText text
  | none => {}

end Settings

end CoinWire
