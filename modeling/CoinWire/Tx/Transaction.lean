import CoinWire.Hash
import CoinWire.Tx.Input
import CoinWire.Tx.Output
import CoinWire.Tx.Witness

/-!
A transaction: inputs, outputs, and possibly a witness for each input.

The wire form of one with witnesses has a zero marker where the number of inputs would stand, a flag after
it, and the witnesses behind the outputs. `stripped` is the form without the three; its hash names the
transaction whether it has witnesses or not.
-/

namespace CoinWire.Tx

open Wire (Reader)

structure Transaction where
  version : Int := 1
  inputs : List Input := []
  outputs : List Output := []
  witness : List Witness := []
  locktime : Int := 0
  deriving DecidableEq, Repr

namespace Transaction

/-- Tells whether marker and flag are next, and consumes them if so. -/
def readMarker : Reader Bool := do
  let before ← get
  let first ← Wire.Number.read 1 "marker or input count"
  if first = 0 then do
    let flag ← Wire.Number.read 1 "flag"
    if flag = 1 then pure true else throw (.segwitFlag flag)
  else do
    set before
    pure false

def read : Reader Transaction := do
  let version ← Wire.Number.read 4 "version"
  let segwit ← readMarker
  let inputCount ← Wire.CompactSize.read
  let inputs ← Reader.many inputCount Input.read
  let outputCount ← Wire.CompactSize.read
  let outputs ← Reader.many outputCount Output.read
  let witness ← if segwit then Reader.many inputCount Witness.read else pure []
  let locktime ← Wire.Number.read 4 "locktime"
  pure { version, inputs, outputs, witness, locktime }

def standardVersions : List Int := [1, 2]

def remark (tx : Transaction) : Logged Unit :=
  if standardVersions.contains tx.version then pure ()
  else .note .transaction s!"Transaction uses custom version {tx.version}"

def remarkOn (result : Except Wire.Failure Transaction) : Logged Unit :=
  match result with
  | .ok tx => tx.remark
  | .error _ => pure ()

def ofBytes (bytes : Bytes) : Logged (Except Wire.Failure Transaction) := do
  let result := match read bytes with
    | .ok tx _ => .ok tx
    | .error e _ => .error e
  remarkOn result
  pure result

def ofHex (text : String) : Logged (Except Wire.Failure Transaction) :=
  match Hex.decode text with
  | .ok bytes => ofBytes bytes
  | .error position => pure (.error (.transactionNotHex position))

def hasWitness (tx : Transaction) : Bool :=
  !tx.witness.isEmpty

def encodeInputs (tx : Transaction) : Except Wire.Failure Bytes := do
  let count ← Wire.CompactSize.encode tx.inputs.length
  let inputs ← tx.inputs.mapM Input.encode
  pure (count ++ inputs.flatten)

def encodeOutputs (tx : Transaction) : Except Wire.Failure Bytes := do
  let count ← Wire.CompactSize.encode tx.outputs.length
  let outputs ← tx.outputs.mapM Output.encode
  pure (count ++ outputs.flatten)

def encode (tx : Transaction) : Except Wire.Failure Bytes := do
  let version ← Wire.Number.encode 4 tx.version
  let inputs ← tx.encodeInputs
  let outputs ← tx.encodeOutputs
  let witness ← tx.witness.mapM Witness.encode
  let locktime ← Wire.Number.encode 4 tx.locktime
  let marker := if tx.hasWitness then [0, 1] else []
  pure (version ++ marker ++ inputs ++ outputs ++ witness.flatten ++ locktime)

def stripped (tx : Transaction) : Except Wire.Failure Bytes := do
  let version ← Wire.Number.encode 4 tx.version
  let inputs ← tx.encodeInputs
  let outputs ← tx.encodeOutputs
  let locktime ← Wire.Number.encode 4 tx.locktime
  pure (version ++ inputs ++ outputs ++ locktime)

def txid (tx : Transaction) : Except Wire.Failure Bytes :=
  tx.stripped.map Hash.hash256

def wtxid (tx : Transaction) : Except Wire.Failure Bytes :=
  tx.encode.map Hash.hash256

end Transaction

end CoinWire.Tx
