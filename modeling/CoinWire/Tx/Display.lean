import CoinWire.Tx.Transaction

/-!
The display of a whole transaction. Its two hashes are shown with their bytes reversed, the second one and
the witnesses only where there are witnesses.

The hash function is a parameter: nothing in the layout depends on which one it is.
-/

namespace CoinWire.Tx.Transaction

def displayHash (hash : Bytes → Bytes) (bytes : Bytes) : Json :=
  .text (Hex.encode (hash bytes).reverse)

def displayOutputs : List Output → Logged (List Json)
  | [] => pure []
  | output :: rest => do
    let first ← output.display
    let others ← displayOutputs rest
    pure (first :: others)

/-- The fields that only a transaction with witnesses shows. -/
def displayWitness (hash : Bytes → Bytes) (tx : Transaction) :
    Except Wire.Failure (List (String × Json)) := do
  if tx.hasWitness then
    let bytes ← tx.encode
    pure [("wtxid", displayHash hash bytes),
      ("witness", .array (tx.witness.map Witness.display))]
  else pure []

def displayWith (hash : Bytes → Bytes) (tx : Transaction) : Logged (Except Wire.Failure Json) :=
  match tx.stripped with
  | .error e => pure (.error e)
  | .ok bytes => do
    let outputs ← displayOutputs tx.outputs
    pure ((displayWitness hash tx).map fun witness =>
      .object ([("txid", displayHash hash bytes), ("version", .number tx.version),
        ("standard_version", .bool (standardVersions.contains tx.version)),
        ("is_segwit", .bool tx.hasWitness), ("inputs", .array (tx.inputs.map Input.display)),
        ("outputs", .array outputs)] ++ witness ++ [("locktime", .number tx.locktime)]))

def display (tx : Transaction) : Logged (Except Wire.Failure Json) :=
  tx.displayWith Hash.hash256

def printWith (hash : Bytes → Bytes) (tx : Transaction) : Logged (Except Wire.Failure String) := do
  let document ← tx.displayWith hash
  pure (document.map Json.print)

def print (tx : Transaction) : Logged (Except Wire.Failure String) :=
  tx.printWith Hash.hash256

end CoinWire.Tx.Transaction
