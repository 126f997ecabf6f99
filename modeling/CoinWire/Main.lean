import CoinWire.Command
import CoinWire.Log.Console

/-!
The program: runs the command on its arguments, with its two settings from the environment.
-/

def main (args : List String) : IO UInt32 := do
  let trailing ← IO.getEnv "BITSCRIPT_ALLOW_TRAILING_DATA"
  let levelName ← IO.getEnv "BITSCRIPT_LOG_LEVEL"
  let run := CoinWire.Command.run (CoinWire.Settings.ofVariable trailing) args
  IO.eprint (CoinWire.Log.console levelName run.records)
  match run.value with
  | .ok report =>
    IO.print report.output
    pure (UInt32.ofNat report.code)
  | .error e =>
    IO.eprintln e.message
    pure 1
