/-!
The families a failure belongs to. A caller that is ready for one family is ready for every failure
in it, and one failure may belong to several.
-/

namespace CoinWire

inductive Family
  | stream
  | read
  | write
  | script
  deriving DecidableEq, Repr

end CoinWire
