import CoinWire.Script.Reading
import CoinWire.Text.Json
import CoinWire.Wire.CompactSize

/-!
A transaction output: an amount and the script that locks it.

Its display says what the script is: kind and assembly for a standard script, the failure for any other.
A script that is not standard is logged.
-/

namespace CoinWire.Tx

open Wire (Reader)

structure Output where
  amount : Int
  script : Bytes
  deriving DecidableEq, Repr

namespace Output

def read : Reader Output := do
  let amount ← Wire.Number.read 8 "amount"
  let size ← Wire.CompactSize.read
  let script ← Reader.bytes size "scriptpubkey"
  pure ⟨amount, script⟩

def encode (output : Output) : Except Wire.Failure Bytes := do
  let amount ← Wire.Number.encode 8 output.amount
  let size ← Wire.CompactSize.encode output.script.length
  pure (amount ++ size ++ output.script)

def asm (settings : Settings) (output : Output) : Logged (Except Script.Failure String) :=
  Script.asm settings output.script

def kind (output : Output) : Except Script.Failure Script.Kind :=
  Script.kind output.script

/-- Kind and assembly of the script, by the rules that allow nothing after it. -/
def standing (output : Output) : Logged (Except Script.Failure (Script.Kind × String)) :=
  match output.kind with
  | .error e => pure (.error e)
  | .ok kind => do
    let text ← output.asm {}
    pure (text.map fun text => (kind, text))

def display (output : Output) : Logged Json := do
  let amount := ("amount", Json.number output.amount)
  let script := ("scriptpubkey", Json.text (Hex.encode output.script))
  match ← output.standing with
  | .ok (kind, text) => pure (.object [amount, script, ("type", .text kind.name), ("asm", .text text)])
  | .error e =>
    if e.isDecoding then do
      Logged.note .transaction
        ("Output script " ++ Hex.encode output.script ++ " is not standard: " ++ e.message)
      pure (.object [amount, script, ("error", .text e.message)])
    -- Only failures of scripts are caught, and a standing has no others: this entry is never shown.
    else pure (.object [amount, script])

end Output

end CoinWire.Tx
