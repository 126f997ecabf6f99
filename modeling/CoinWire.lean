import CoinWire.Script.Assembler
import CoinWire.Script.Standard
import CoinWire.Text.Value
import CoinWire.Tx.Element
import CoinWire.Wire.Stream
import CoinWire.Main
import CoinWire.Proofs.Script.Grammar
import CoinWire.Proofs.Tx.RoundTrip
import CoinWire.Proofs.Tx.Refusal
import CoinWire.Proofs.Script.Shortage
import CoinWire.Proofs.Script.Assembly
import CoinWire.Proofs.Tx.Identity
import CoinWire.Proofs.Tx.Elements
import CoinWire.Proofs.Wire.Canonical
import CoinWire.Proofs.Script.Account
import CoinWire.Proofs.Command.Reports
import CoinWire.Proofs.Script.Multisig
import CoinWire.Proofs.Script.Patterns
import CoinWire.Proofs.Tx.Sequence
import CoinWire.Proofs.Tx.Entries
import CoinWire.Proofs.Tx.Ranges
import CoinWire.Proofs.Tx.Bounds
import CoinWire.Proofs.Script.Records
import CoinWire.Proofs.Text.Document
import CoinWire.Proofs.Tx.Legible
import CoinWire.Proofs.Log.Settlement
import CoinWire.Proofs.Script.Positions
import CoinWire.Proofs.Script.Joining
import CoinWire.Proofs.Script.Views
