import CoinWire.Family
import CoinWire.Text.Hex

/-!
Everything that can go wrong while transaction data is read from or written to its wire form, one
constructor a cause.

The causes from `lengthOverflow` on belong to no family: a length beyond what any read can take, a number
that does not fit the field it is written to, and a position before the start of the stream or beyond what
any stream can have.
-/

namespace CoinWire.Wire

inductive Failure
  | insufficient (label : String)
  | nonCanonical (value marker : Nat)
  | segwitFlag (flag : Nat)
  | transactionNotHex (position : Nat)
  | sizeOutOfBounds
  | broken (text : String)
  | unreadable (text : String)
  | unwritable (text : String)
  | lengthOverflow
  | negativeNumber
  | numberTooBig
  | negativePosition (n : Int)
  | positionOverflow
  deriving DecidableEq, Repr

namespace Failure

def message : Failure → String
  | insufficient label =>
    "Error reading stream. Insufficient data." ++
      if label.isEmpty then "" else " Data type: " ++ label
  | nonCanonical value marker =>
    s!"Non-canonical CompactSize encoding: {value} under prefix 0x" ++ Hex.ofNat marker
  | segwitFlag flag => "Invalid SegWit flag: 0x" ++ Hex.ofNat flag
  | transactionNotHex position => "Transaction is not valid hex: " ++ Hex.fault position
  | sizeOutOfBounds => "Given number out of bounds for CompactSize encoding"
  | broken text | unreadable text | unwritable text => text
  | lengthOverflow => "cannot fit 'int' into an index-sized integer"
  | negativeNumber => "can't convert negative int to unsigned"
  | numberTooBig => "int too big to convert"
  | negativePosition n => s!"negative seek value {n}"
  | positionOverflow => "Python int too large to convert to C ssize_t"

def families : Failure → List Family
  | insufficient _ | nonCanonical .. | segwitFlag _ | transactionNotHex _ | unreadable _ =>
    [.stream, .read]
  | sizeOutOfBounds | unwritable _ => [.stream, .write]
  | broken _ => [.stream]
  | lengthOverflow | negativeNumber | numberTooBig | negativePosition _ | positionOverflow => []

end Failure

end CoinWire.Wire
