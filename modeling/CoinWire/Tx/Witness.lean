import CoinWire.Text.Json
import CoinWire.Wire.CompactSize

/-!
The witness of one input: a stack of byte strings, each written with its length.
-/

namespace CoinWire.Tx

open Wire (Reader)

structure Witness where
  items : List Bytes
  deriving DecidableEq, Repr

namespace Witness

def readItem : Reader Bytes := do
  let size ← Wire.CompactSize.read
  Reader.bytes size "witness item"

def read : Reader Witness := do
  let count ← Wire.CompactSize.read
  let items ← Reader.many count readItem
  pure ⟨items⟩

def encodeItem (item : Bytes) : Except Wire.Failure Bytes := do
  let size ← Wire.CompactSize.encode item.length
  pure (size ++ item)

def encode (witness : Witness) : Except Wire.Failure Bytes := do
  let count ← Wire.CompactSize.encode witness.items.length
  let items ← witness.items.mapM encodeItem
  pure (count ++ items.flatten)

def display (witness : Witness) : Json :=
  .object [("items", .array (witness.items.map fun item => .text (Hex.encode item)))]

end Witness

end CoinWire.Tx
