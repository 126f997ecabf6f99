import CoinWire.Failure
import CoinWire.Text.Quoted
import CoinWire.Tx.Display

/-!
The command line: the assembly of a script, its kind, or the display of a transaction.

A failure of a family that streams or scripts have is reported on the output and logged with all the
arguments. Any other leaves the command as it is.
-/

namespace CoinWire.Command

structure Report where
  code : Nat
  output : String
  deriving DecidableEq, Repr

def usage : String :=
  "Locking Script Decoder\n" ++
  "Usage:\n" ++
  "  # Decode a locking script to ASM\n" ++
  "  bitscript 76a914<pubkeyhash>88ac\n" ++
  "\n" ++
  "  # Print the script type\n" ++
  "  bitscript --type 76a914<pubkeyhash>88ac\n" ++
  "\n" ++
  "  # Decode a raw transaction and the ASM of every output\n" ++
  "  bitscript --tx <raw_tx_hex>\n"

def line (code : Nat) (text : String) : Report := ⟨code, text ++ "\n"⟩

def scriptOfHex (text : String) : Except Script.Failure Bytes :=
  match Hex.decode text with
  | .ok script => .ok script
  | .error position => .error (.argumentNotHex position)

def transaction (text : String) : Logged (Except Failure String) := do
  match ← Tx.Transaction.ofHex text with
  | .error e => pure (.error (.wire e))
  | .ok tx => do
    let shown ← tx.print
    pure (shown.mapError Failure.wire)

def kind (text : String) : Except Failure String :=
  match (scriptOfHex text).bind Script.kind with
  | .ok kind => .ok kind.name
  | .error e => .error (.script e)

def asm (settings : Settings) (text : String) : Logged (Except Failure String) :=
  match scriptOfHex text with
  | .error e => pure (.error (.script e))
  | .ok script => do
    let shown ← Script.asm settings script
    pure (shown.mapError Failure.script)

def isReported (e : Failure) : Bool :=
  e.families.contains .script || e.families.contains .stream

def report (args : List String) (result : Except Failure String) :
    Logged (Except Failure Report) :=
  match result with
  | .ok text => pure (.ok (line 0 text))
  | .error e =>
    if isReported e then do
      Logged.note .command
        ("Decode failed for arguments " ++ Text.Quoted.encodeList args ++ ": " ++ e.message)
      pure (.ok (line 1 ("Error: " ++ e.message)))
    else pure (.error e)

def run (settings : Settings) (args : List String) : Logged (Except Failure Report) :=
  match args with
  | [] => pure (.ok (line 0 usage))
  | ["--tx"] => pure (.ok (line 1 "Error: Missing transaction hex"))
  | ["--type"] => pure (.ok (line 1 "Error: Missing script hex"))
  | "--tx" :: text :: _ => do report args (← transaction text)
  | "--type" :: text :: _ => report args (kind text)
  | text :: _ => do report args (← asm settings text)

end CoinWire.Command
