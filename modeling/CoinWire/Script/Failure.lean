import CoinWire.Family
import CoinWire.Text.Decimal
import CoinWire.Text.Hex

/-!
Everything that can go wrong while a script is classified or decoded, one constructor a cause.

The causes of the script family are faults of the script itself. The others, from `notByte` on, are
faults of a request: no script provokes them by its bytes alone. Numbers are kept as integers because
a cause may also be stated by hand, for any numbers.
-/

namespace CoinWire.Script

inductive Failure
  | unexpectedEnd (needed position available : Int)
  | noByteValue
  | noMnemonic
  | pushExpected (found : Int)
  | unsupported (text : String) (found : Option Int)
  | mismatch (expected : String) (found : Int)
  | unrecognized (found : Int)
  | multisigBody (found : Int)
  | keyCount (declared observed : Int)
  | threshold (required declared : Int)
  | trailing (count : Int)
  | scriptNotHex (position : Nat)
  | argumentNotHex (position : Nat)
  | undecodable (text : String)
  | notByte (n : Int)
  | pushLength (n : Int)
  | smallInteger (n : Int)
  | negativeRead (n : Int)
  | rewind (offset : Int) (position : Nat)
  | valuedName
  | unnumbered
  deriving DecidableEq, Repr

namespace Failure

def message [DigitLimit] : Failure → String
  | unexpectedEnd needed position available =>
    s!"Unexpected end of script: needed {needed} byte(s) at offset {position}, {available} available"
  | noByteValue => "Unsupported opcode has no byte value"
  | noMnemonic => "Unsupported opcode has no mnemonic"
  | pushExpected found =>
    "Expected a data push after OP_RETURN but found byte 0x" ++ Hex.ofInt found
  | unsupported text _ => text
  | mismatch expected found => "Expected " ++ expected ++ " but found byte 0x" ++ Hex.ofInt found
  | unrecognized found => "No standard template starts with byte 0x" ++ Hex.ofInt found
  | multisigBody found =>
    "Expected OP_PUSHBYTES_65 or a key count in multisig body but found byte 0x" ++ Hex.ofInt found
  | keyCount declared observed => s!"Multisig declares {declared} key(s) but contains {observed}"
  | threshold required declared =>
    s!"Multisig threshold {required} exceeds key count {declared}"
  | trailing count => s!"{count} unconsumed byte(s) after the end of the script template"
  | scriptNotHex position => "Script is not valid hex: " ++ Hex.fault position
  | argumentNotHex position => "Argument is not valid hex: " ++ Hex.fault position
  | undecodable text => text
  | notByte n => Decimal.told n s!"Not a byte value: {n}"
  | pushLength n => Decimal.told n s!"Push length out of range: {n}"
  | smallInteger n => Decimal.told n s!"Small integer out of range: {n}"
  | negativeRead n => Decimal.told n s!"Cannot read a negative number of bytes: {n}"
  | rewind offset position =>
    Decimal.told offset s!"Cannot rewind to offset {offset} from position {position}"
  | valuedName => "A named opcode carries no value"
  | unnumbered => "A small integer needs its number"

/-- A number too long to be written. The limit on digits is all its message tells, and so it is the same
failure as that of any other such number out of place. -/
def tooLong (n : Int) : Failure := .notByte n

/-- A script that ends too soon is also a stream that ends too soon. -/
def families : Failure → List Family
  | unexpectedEnd .. => [.stream, .read, .script]
  | notByte _ | pushLength _ | smallInteger _ | negativeRead _ | rewind .. | valuedName |
      unnumbered => []
  | _ => [.script]

def isDecoding (e : Failure) : Bool :=
  e.families.contains .script

end Failure

end CoinWire.Script
