/-!
The levels of a log: numbers, some of which have names. Names are looked up in capitals; a level without a
name is written as its number.
-/

namespace CoinWire.Log

abbrev Level := Int

namespace Level

def warning : Level := 30

def numbers : List (String × Level) :=
  [("NOTSET", 0), ("DEBUG", 10), ("INFO", 20), ("WARNING", 30), ("ERROR", 40), ("CRITICAL", 50),
    ("WARN", 30), ("FATAL", 50)]

/-- The capital of a letter. Outside ASCII only the two letters matter whose capital is inside. -/
def capital (c : Char) : Char :=
  if c = 'ı' then 'I' else if c = 'ſ' then 'S' else c.toUpper

def ofName? (name : String) : Option Level :=
  numbers.lookup (String.ofList (name.toList.map capital))

def name (level : Level) : String :=
  match numbers.find? (·.2 = level) with
  | some (name, _) => name
  | none => "Level " ++ toString level

end Level

end CoinWire.Log
