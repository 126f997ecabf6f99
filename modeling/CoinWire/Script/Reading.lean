import CoinWire.Log.Record
import CoinWire.Script.Shape
import CoinWire.Settings

/-!
A whole script as assembly: its kind is found, the template of that kind decodes it, and what follows
the template is refused unless the settings allow it.

The kind and every failure of the first two stages are logged. Bytes that follow are a failure too, but
one of a script that did decode, and are not.
-/

namespace CoinWire.Script

def beginning (script : Bytes) (kind : Kind) : Logged Unit :=
  .note .script s!"Decoding {script.length}-byte script as {kind.name}"

def failing (script : Bytes) (e : Failure) : Logged Unit :=
  if e.isDecoding then
    .note .script ("Failed to decode script " ++ Hex.encode script ++ ": " ++ e.message)
  else pure ()

/-- Classifies and decodes, and leaves the trailing bytes to the caller. -/
def decode (script : Bytes) : Logged (Except Failure Progress) :=
  match kind script with
  | .error e => do
    failing script e
    pure (.error e)
  | .ok kind => do
    beginning script kind
    match Decoder.ofKind kind (.start script) with
    | .ok () p => pure (.ok p)
    | .error e _ => do
      failing script e
      pure (.error e)

def accept (settings : Settings) (p : Progress) : Except Failure Asm :=
  if p.cursor.atEnd ∨ settings.allowTrailing then .ok p.asm
  else .error (.trailing p.cursor.remaining)

def assemble (settings : Settings) (script : Bytes) : Logged (Except Failure Asm) := do
  let result ← decode script
  pure (result.bind (accept settings))

def asm (settings : Settings) (script : Bytes) : Logged (Except Failure String) := do
  let result ← assemble settings script
  pure (result.map Asm.text)

def tokens (settings : Settings) (script : Bytes) : Logged (Except Failure (List String)) := do
  let result ← assemble settings script
  pure (result.map Asm.tokens)

def asmOfHex (settings : Settings) (text : String) : Logged (Except Failure String) :=
  match Hex.decode text with
  | .ok script => asm settings script
  | .error position => pure (.error (.scriptNotHex position))

end CoinWire.Script
