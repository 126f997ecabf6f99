import CoinWire.Tx.Display

/-!
What can be read from a stream: a transaction or one of its parts. Two elements match when their wire
forms are equal, even if they are of different sorts.
-/

namespace CoinWire.Tx

open Wire (Reader)

inductive Element
  | input (it : Input)
  | output (it : Output)
  | witness (it : Witness)
  | transaction (it : Transaction)
  deriving DecidableEq, Repr

namespace Element

def readers : List (String × Reader Element) :=
  [("TxInput", do pure (.input (← Input.read))), ("TxOutput", do pure (.output (← Output.read))),
    ("WitnessField", do pure (.witness (← Witness.read))),
    ("Transaction", do pure (.transaction (← Transaction.read)))]

def reader? (sort : String) : Option (Reader Element) :=
  readers.lookup sort

def sort : Element → String
  | input _ => "TxInput"
  | output _ => "TxOutput"
  | witness _ => "WitnessField"
  | transaction _ => "Transaction"

def remark : Element → Logged Unit
  | transaction it => it.remark
  | _ => pure ()

def encode : Element → Except Wire.Failure Bytes
  | input it => it.encode
  | output it => it.encode
  | witness it => it.encode
  | transaction it => it.encode

def print : Element → Logged (Except Wire.Failure String)
  | input it => pure (.ok it.display.print)
  | output it => do
    let document ← it.display
    pure (.ok document.print)
  | witness it => pure (.ok it.display.print)
  | transaction it => it.print

def describe (element : Element) : Except Wire.Failure String :=
  element.encode.map fun bytes => element.sort ++ "(" ++ Hex.encode bytes ++ ")"

def sameWire (a b : Element) : Except Wire.Failure Bool := do
  let left ← a.encode
  let right ← b.encode
  pure (left == right)

end Element

end CoinWire.Tx
