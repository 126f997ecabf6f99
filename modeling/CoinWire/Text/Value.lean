import CoinWire.Text.Quoted

/-!
Values as they are shown inside a message. Text inside another value stands in quotes, and by itself it
stands as it is. A failure stated with several values shows them as a row.
-/

namespace CoinWire.Text

inductive Value
  | nothing
  | truth (value : Bool)
  | number (value : Int)
  | text (value : String)
  | list (values : List Value)
  | row (values : List Value)
  | record (fields : List (String × Value))

namespace Value

mutual

def shown (quote : String → String) : Value → String
  | nothing => "None"
  | truth true => "True"
  | truth false => "False"
  | number n => toString n
  | text s => quote s
  | list values => "[" ++ ", ".intercalate (allShown quote values) ++ "]"
  | row values =>
    "(" ++ ", ".intercalate (allShown quote values) ++ if values.length = 1 then ",)" else ")"
  | record fields => "\x7b" ++ ", ".intercalate (fieldsShown quote fields) ++ "\x7d"

def allShown (quote : String → String) : List Value → List String
  | [] => []
  | value :: rest => shown quote value :: allShown quote rest

def fieldsShown (quote : String → String) : List (String × Value) → List String
  | [] => []
  | (key, value) :: rest => (quote key ++ ": " ++ shown quote value) :: fieldsShown quote rest

end

def quoted : Value → String := shown Quoted.encode

def ascii : Value → String := shown Quoted.encodeAscii

def plain : Value → String
  | text s => s
  | value => value.quoted

def describe : List Value → String
  | [] => ""
  | [value] => value.plain
  | values => (row values).quoted

end Value

end CoinWire.Text
