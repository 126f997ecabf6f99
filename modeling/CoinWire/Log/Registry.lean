import CoinWire.Log.Layout
import CoinWire.Log.Lineage
import CoinWire.Log.Path

/-!
Named loggers, their handlers and the files they write to.

A logger is settled by the first request that succeeds: it then has a handler for the console, one for a
file if the request names one, and a level. Later requests change nothing. A request whose layout is
refused leaves a level behind and no handler, and one whose file cannot be opened leaves the handler for the
console too.

An entry passes a logger by the level of the nearest of the logger and those above it that has one. The
answer is remembered for the logger and the level of the entry until the level of any logger is set. An
entry that passes is written by the handlers of all of them, the logger's own first and the root's last. The
root is there from the start, with a level and without handlers.
-/

namespace CoinWire.Log

inductive Target
  | console
  | file (path : String)
  deriving DecidableEq, Repr

structure Handler where
  target : Target
  layout : Layout
  deriving DecidableEq, Repr

structure Logger where
  level : Level := 0
  handlers : List Handler := []
  deriving DecidableEq, Repr

structure Registry where
  root : Logger := { level := Level.warning }
  loggers : List (String × Logger) := []
  files : List (String × String) := []
  verdicts : List ((String × Level) × Bool) := []
  deriving DecidableEq, Repr

/-- What is asked of a logger. The fallback is the level that holds where none is given. -/
structure Request where
  name : String
  level : Option String := none
  fallback : Option String := none
  layout : Option String := none
  file : Option String := none
  deriving DecidableEq, Repr

namespace Request

def levelName (request : Request) : String :=
  request.level.getD (request.fallback.getD "WARNING")

def levelNumber (request : Request) : Level :=
  (Level.ofName? request.levelName).getD Level.warning

def layoutText (request : Request) : String :=
  request.layout.getD Layout.standard

def path? (request : Request) : Option String :=
  (request.file.filter Path.isValid).map Path.normal

def handlers (request : Request) (layout : Layout) : List Handler :=
  ⟨.console, layout⟩ :: match request.path? with
    | some path => [⟨.file path, layout⟩]
    | none => []

end Request

/-- A layout that mentions no field, or a file that no path leads to. -/
inductive Refusal
  | layout (text : String)
  | path
  deriving DecidableEq, Repr

def Refusal.message : Refusal → String
  | layout text => "Invalid format '" ++ text ++ "' for '%' style"
  | path => "embedded null byte"

namespace Registry

open Lineage (IsRoot Alike)

def logger (registry : Registry) (name : String) : Logger :=
  if IsRoot name then registry.root else (registry.loggers.lookup name).getD {}

def knows (registry : Registry) (name : String) : Bool :=
  (registry.loggers.lookup name).isSome

def set (registry : Registry) (name : String) (logger : Logger) : Registry :=
  if IsRoot name then { registry with root := logger }
  else { registry with loggers := (name, logger) :: registry.loggers }

/-- A logger is there from the first time it is named. -/
def meet (registry : Registry) (name : String) : Registry :=
  if IsRoot name ∨ registry.knows name then registry else registry.set name {}

def setLevel (registry : Registry) (name : String) (level : Level) : Registry :=
  { registry.set name { registry.logger name with level } with verdicts := [] }

theorem logger_of_alike (registry : Registry) {name other : String} (h : Alike name other) :
    registry.logger name = registry.logger other := by
  obtain rfl | ⟨hn, ho⟩ := h
  · rfl
  · rw [Registry.logger, Registry.logger, if_pos hn, if_pos ho]

theorem logger_set (registry : Registry) (name other : String) (logger : Logger) :
    (registry.set name logger).logger other =
      if Alike other name then logger else registry.logger other := by
  by_cases hn : IsRoot name
  · by_cases ho : IsRoot other
    · rw [set, if_pos hn, Registry.logger, if_pos ho, if_pos (.inr ⟨ho, hn⟩)]
    · rw [if_neg fun h => ho (h.isRoot_iff.2 hn), set, if_pos hn, Registry.logger, Registry.logger,
        if_neg ho, if_neg ho]
  · rw [set, if_neg hn]
    by_cases h : other = name
    · rw [if_pos (.inl h), Registry.logger, h, if_neg hn, List.lookup_cons_self, Option.getD_some]
    · have hb : (other == name) = false := by simpa using h
      rw [if_neg fun ha => ha.elim h fun hr => hn hr.2, Registry.logger, Registry.logger,
        List.lookup_cons, hb]

theorem logger_setLevel (registry : Registry) (name other : String) (level : Level) :
    (registry.setLevel name level).logger other =
      if Alike other name then { registry.logger name with level } else registry.logger other :=
  logger_set ..

def appendTo (path text : String) : List (String × String) → List (String × String)
  | [] => [(path, text)]
  | (other, contents) :: rest =>
    if other = path then (other, contents ++ text) :: rest
    else (other, contents) :: appendTo path text rest

def append (registry : Registry) (path text : String) : Registry :=
  { registry with files := appendTo path text registry.files }

/-- The files below the directory that paths are seen from. -/
def listing (registry : Registry) : List (String × String) :=
  registry.files.filter fun (path, _) => Path.isBelow path

def openFile (registry : Registry) : Option String → Registry
  | some path => registry.append path ""
  | none => registry

@[simp] theorem logger_openFile (registry : Registry) (file : Option String) (name : String) :
    (registry.openFile file).logger name = registry.logger name := by
  cases file <;> rfl

def configure (request : Request) : EStateM Refusal Registry Unit := fun registry =>
  if !(registry.logger request.name).handlers.isEmpty then .ok () registry
  else
    let levelled := registry.setLevel request.name request.levelNumber
    match Layout.ofText? request.layoutText with
    | none => .error (.layout request.layoutText) levelled
    | some layout =>
      let settled := (levelled.set request.name
        ⟨request.levelNumber, request.handlers layout⟩).openFile request.path?
      if request.file.all Path.isValid then .ok () settled else .error .path settled

def lineage (registry : Registry) (name : String) : List String :=
  Lineage.ofName registry.knows name

def effectiveLevel (registry : Registry) (name : String) : Level :=
  (((registry.lineage name).map fun n => (registry.logger n).level).find? (· ≠ 0)).getD 0

def passes (registry : Registry) (name : String) (level : Level) : Bool :=
  registry.effectiveLevel name ≤ level && 0 < level

def judge (registry : Registry) (name : String) (level : Level) : Bool × Registry :=
  match registry.verdicts.lookup (name, level) with
  | some verdict => (verdict, registry)
  | none =>
    let verdict := registry.passes name level
    (verdict, { registry with verdicts := ((name, level), verdict) :: registry.verdicts })

def handlersFor (registry : Registry) (name : String) : List Handler :=
  (registry.lineage name).flatMap fun n => (registry.logger n).handlers

/-- Lets a handler write an entry. The first result is what appears on the console. -/
def handle (entry : Entry) (written : String × Registry) (handler : Handler) : String × Registry :=
  let line := handler.layout.print entry ++ "\n"
  match handler.target with
  | .console => (written.1 ++ line, written.2)
  | .file path => (written.1, written.2.append path line)

/-- Logs an entry. Where no handler at all is found, warnings and worse appear bare on the console. -/
def log (registry : Registry) (entry : Entry) : String × Registry :=
  let entry := if IsRoot entry.logger then { entry with logger := Lineage.root } else entry
  let (verdict, registry) := (registry.meet entry.logger).judge entry.logger entry.level
  if !verdict then ("", registry)
  else match registry.handlersFor entry.logger with
    | [] => (if Level.warning ≤ entry.level then entry.message ++ "\n" else "", registry)
    | handlers => handlers.foldl (handle entry) ("", registry)

end Registry

end CoinWire.Log
