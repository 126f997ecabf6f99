import CoinWire.Script.Failure
import CoinWire.Wire.Failure

/-!
The failures of scripts and of transaction data together.
-/

namespace CoinWire

inductive Failure
  | script (cause : Script.Failure)
  | wire (cause : Wire.Failure)
  deriving DecidableEq, Repr

namespace Failure

def message : Failure → String
  | script cause => cause.message
  | wire cause => cause.message

def families : Failure → List Family
  | script cause => cause.families
  | wire cause => cause.families

end Failure

end CoinWire
