import CoinWire.Proofs.Tx.Refusal
import CoinWire.Proofs.Tx.RoundTrip
import CoinWire.Proofs.Wire.Delimited
import CoinWire.Tx.Element

/-!
Elements of every sort, read from a stream. What is read tells its own end: nothing less of it is read as
anything, and nothing behind it changes what is read.
-/

namespace CoinWire.Tx.Element

open Wire
open Wire.Reader (Takes Refuses)

variable {sort : String} {reader : Reader Element}

/-- The bytes of which an element is what is read. -/
def WireForm : Element → Bytes → Prop
  | input it, w => it.Readable ∧ it.encode = .ok w
  | output it, w => it.Readable ∧ it.encode = .ok w
  | witness it, w => it.Readable ∧ it.encode = .ok w
  | transaction it, w => it.WireForm w

theorem mem_readers : (sort, reader) ∈ readers ↔
    (sort = "TxInput" ∧ reader = do pure (input (← Input.read))) ∨
    (sort = "TxOutput" ∧ reader = do pure (output (← Output.read))) ∨
    (sort = "WitnessField" ∧ reader = do pure (witness (← Witness.read))) ∨
    (sort = "Transaction" ∧ reader = do pure (transaction (← Transaction.read))) := by
  simp only [readers, List.mem_cons, Prod.mk.injEq, List.not_mem_nil, or_false]

theorem takes_reader (h : (sort, reader) ∈ readers) :
    Takes reader fun element w => element.sort = sort ∧ element.WireForm w := by
  obtain ⟨rfl, rfl⟩ | ⟨rfl, rfl⟩ | ⟨rfl, rfl⟩ | ⟨rfl, rfl⟩ := mem_readers.1 h
  · refine (Input.takes_read.map input).congr fun element w => ?_
    cases element <;> simp [Element.sort, WireForm]
  · refine (Output.takes_read.map output).congr fun element w => ?_
    cases element <;> simp [Element.sort, WireForm]
  · refine (Witness.takes_read.map witness).congr fun element w => ?_
    cases element <;> simp [Element.sort, WireForm]
  · refine (Transaction.takes_read.map transaction).congr fun element w => ?_
    cases element <;> simp [Element.sort, WireForm]

theorem refuses_reader (h : (sort, reader) ∈ readers) : ∃ oversized, Refuses reader oversized := by
  obtain ⟨-, rfl⟩ | ⟨-, rfl⟩ | ⟨-, rfl⟩ | ⟨-, rfl⟩ := mem_readers.1 h
  · exact ⟨_, Input.refuses_read.map Input.takes_read input⟩
  · exact ⟨_, Output.refuses_read.map Output.takes_read output⟩
  · exact ⟨_, Witness.refuses_read.map Witness.takes_read witness⟩
  · exact ⟨_, Transaction.refuses_read.map Transaction.takes_read transaction⟩

/-- An element is read wherever its bytes are next, whatever is behind them, and any cut inside them is
refused as unreadable. -/
theorem run_reader_delimited (hs : (sort, reader) ∈ readers) {bytes : Bytes} {element : Element}
    {k : Nat} (h : (Stream.mk bytes 0).run reader = (.ok element, ⟨bytes, k⟩)) :
    (∀ j < k, ∃ e s, (Stream.mk (bytes.take j) 0).run reader = (.error e, s) ∧
      Family.read ∈ e.families) ∧
    ∀ more, (Stream.mk (bytes.take k ++ more) 0).run reader =
      (.ok element, ⟨bytes.take k ++ more, k⟩) := by
  obtain ⟨oversized, hrefuses⟩ := refuses_reader hs
  exact hrefuses.run_delimited (takes_reader hs) h

def spending : Transaction :=
  { Transaction.least with outputs := [⟨1, [0x6a]⟩], witness := [⟨[[7]]⟩] }

def spendingBytes : Bytes :=
  [1, 0, 0, 0] ++ [0, 1] ++ [1] ++ List.replicate 32 0 ++ [0, 0, 0, 0] ++ [0] ++ [0, 0, 0, 0] ++
    [1] ++ [1, 0, 0, 0, 0, 0, 0, 0] ++ [1, 0x6a] ++ [1] ++ [1, 7] ++ [0, 0, 0, 0]

theorem run_reader_delimited_spending : ∃ reader, ("Transaction", reader) ∈ readers ∧
    (Stream.mk spendingBytes 0).run reader = (.ok (transaction spending), ⟨spendingBytes, 66⟩) ∧
    (∀ j < 66, ∃ e s, (Stream.mk (spendingBytes.take j) 0).run reader = (.error e, s) ∧
      Family.read ∈ e.families) ∧
    ∀ more, (Stream.mk (spendingBytes.take 66 ++ more) 0).run reader =
      (.ok (transaction spending), ⟨spendingBytes.take 66 ++ more, 66⟩) := by
  have hs : ("Transaction", do pure (transaction (← Transaction.read))) ∈ readers :=
    mem_readers.2 (.inr (.inr (.inr ⟨rfl, rfl⟩)))
  have h : (Stream.mk spendingBytes 0).run (do pure (transaction (← Transaction.read))) =
      (.ok (transaction spending), ⟨spendingBytes, 66⟩) := by
    rfl
  exact ⟨_, hs, h, run_reader_delimited hs h⟩

end CoinWire.Tx.Element
