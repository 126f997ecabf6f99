import CoinWire.Text.Json
import CoinWire.Wire.CompactSize

/-!
A transaction input: the output it spends, named by transaction and index, the script that unlocks it, and
a sequence number. Numbers are arbitrary integers; only what fits its field can be written.
-/

namespace CoinWire.Tx

open Wire (Reader)

structure Input where
  txid : Bytes
  vout : Int
  script : Bytes
  sequence : Int
  deriving DecidableEq, Repr

namespace Input

def read : Reader Input := do
  let txid ← Reader.bytes 32 "txid"
  let vout ← Wire.Number.read 4 "vout"
  let size ← Wire.CompactSize.read
  let script ← Reader.bytes size "scriptsig"
  let sequence ← Wire.Number.read 4 "sequence"
  pure ⟨txid, vout, script, sequence⟩

def encode (input : Input) : Except Wire.Failure Bytes := do
  let vout ← Wire.Number.encode 4 input.vout
  let size ← Wire.CompactSize.encode input.script.length
  let sequence ← Wire.Number.encode 4 input.sequence
  pure (input.txid ++ vout ++ size ++ input.script ++ sequence)

/-- The transaction is named with its bytes reversed. -/
def display (input : Input) : Json :=
  .object [("txid", .text (Hex.encode input.txid.reverse)), ("vout", .number input.vout),
    ("scriptsig", .text (Hex.encode input.script)), ("sequence", .number input.sequence)]

end Input

end CoinWire.Tx
