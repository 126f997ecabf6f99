/-!
Notes that a computation leaves on its way. All of them are details for debugging; each names the part
of the library that wrote it.
-/

namespace CoinWire.Log

inductive Source
  | script
  | transaction
  | command
  deriving DecidableEq, Repr

def Source.name : Source → String
  | script => "bitscript.script.parser"
  | transaction => "bitscript.tx.tx"
  | command => "bitscript.cli"

structure Record where
  source : Source
  message : String
  deriving DecidableEq, Repr

end CoinWire.Log

namespace CoinWire

/-- A value with the records written while it was computed, in order. -/
structure Logged (α : Type) where
  value : α
  records : List Log.Record
  deriving DecidableEq, Repr

namespace Logged

variable {α β : Type}

protected def pure (a : α) : Logged α := ⟨a, []⟩

protected def bind (a : Logged α) (f : α → Logged β) : Logged β :=
  let b := f a.value
  ⟨b.value, a.records ++ b.records⟩

instance : Monad Logged where
  pure := Logged.pure
  bind := Logged.bind

def note (source : Log.Source) (message : String) : Logged Unit :=
  ⟨(), [⟨source, message⟩]⟩

@[simp] theorem value_pure (a : α) : (pure a : Logged α).value = a := rfl

@[simp] theorem records_pure (a : α) : (pure a : Logged α).records = [] := rfl

@[simp] theorem value_bind (a : Logged α) (f : α → Logged β) :
    (a >>= f).value = (f a.value).value := rfl

@[simp] theorem records_bind (a : Logged α) (f : α → Logged β) :
    (a >>= f).records = a.records ++ (f a.value).records := rfl

end Logged

end CoinWire
