import CoinWire.Log.Record
import CoinWire.Log.Registry

/-!
What the records of a run put on the console, where a level by name decides whether they pass. Every record
is a detail for debugging.
-/

namespace CoinWire.Log

def Record.level : Level := 10

def Record.entry (record : Record) : Entry :=
  ⟨record.source.name, Record.level, record.message⟩

def consoleLayout : String := "[%(name)s] [%(levelname)s]: %(message)s"

/-- The registry in which each source of records has its logger. -/
def settled (levelName : Option String) : Registry :=
  [Source.script, .transaction, .command].foldl
    (fun registry source =>
      match Registry.configure
          { name := source.name, fallback := levelName, layout := consoleLayout } registry with
      | .ok () registry => registry
      | .error _ registry => registry) {}

def console (levelName : Option String) (records : List Record) : String :=
  let registry := settled levelName
  String.join (records.map fun record => (registry.log record.entry).1)

end CoinWire.Log
