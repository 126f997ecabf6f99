import CoinWire.Proofs.Tx.Elements

/-!
Parts of transactions on a stream they share. A part that is read is written again to just the bytes that were
passed, and a part that was written is read back without a byte of what is behind it. So parts of any sorts,
written one after another, are read back one by one.
-/

namespace CoinWire.Wire.Stream

variable {α : Type}

theorem skip_skip (s : Stream) (m n : Nat) : (s.skip m).skip n = s.skip (m + n) := by
  simp only [skip, Nat.add_assoc]

/-- Readers one after another, up to the first that fails. -/
def runAll : Stream → List (Reader α) → Except Failure (List α) × Stream
  | s, [] => (.ok [], s)
  | s, reader :: readers =>
    match s.run reader with
    | (.error e, t) => (.error e, t)
    | (.ok a, t) =>
      let (found, u) := runAll t readers
      (found.map (a :: ·), u)

theorem runAll_cons {s t u : Stream} {reader : Reader α} {readers : List (Reader α)} {a : α}
    {found : List α} (h : s.run reader = (.ok a, t)) (ht : t.runAll readers = (.ok found, u)) :
    s.runAll (reader :: readers) = (.ok (a :: found), u) := by
  simp only [runAll, h, ht, Except.map]

end CoinWire.Wire.Stream

namespace CoinWire.Tx.Element

open Wire

def partSorts : List String := ["TxInput", "TxOutput", "WitnessField"]

theorem transaction_not_part : "Transaction" ∉ partSorts := by
  decide

def reader : Element → Reader Element
  | input _ => do pure (input (← Input.read))
  | output _ => do pure (output (← Output.read))
  | witness _ => do pure (witness (← Witness.read))
  | transaction _ => do pure (transaction (← Transaction.read))

/-- A part with the bytes it is written to, where these can be read. -/
structure Portable (element : Element) (w : Bytes) : Prop where
  part : element.sort ∈ partSorts
  written : element.encode = .ok w
  short : w.length < 2 ^ 63
  named : ∀ it, element = input it → it.txid.length = 32

variable {element : Element} {w rest : Bytes} {s t : Stream}

theorem mem_readers_reader (element : Element) : (element.sort, element.reader) ∈ readers := by
  rw [mem_readers]
  cases element with
  | input => exact .inl ⟨rfl, rfl⟩
  | output => exact .inr (.inl ⟨rfl, rfl⟩)
  | witness => exact .inr (.inr (.inl ⟨rfl, rfl⟩))
  | transaction => exact .inr (.inr (.inr ⟨rfl, rfl⟩))

theorem WireForm.encode_part (h : element.WireForm w) (hp : element.sort ∈ partSorts) :
    element.encode = .ok w := by
  cases element with
  | input | output | witness => exact h.2
  | transaction => exact absurd hp transaction_not_part

theorem Portable.wireForm (h : element.Portable w) : element.WireForm w := by
  have hw := h.written
  cases element with
  | input it => exact ⟨Input.readable_of_encode hw h.short (h.named it rfl), hw⟩
  | output it => exact ⟨Output.readable_of_encode hw h.short, hw⟩
  | witness it => exact ⟨Witness.readable_of_encode hw h.short, hw⟩
  | transaction => exact absurd h.part transaction_not_part

theorem Portable.run (h : element.Portable w) (hu : s.unread = w ++ rest) :
    s.run element.reader = (.ok element, s.skip w.length) := by
  rw [(takes_reader (mem_readers_reader element)).run_iff]
  exact ⟨w, rest, ⟨rfl, h.wireForm⟩, hu, rfl⟩

theorem runAll_portable {elements : List Element} {ws : List Bytes}
    (h : List.Forall₂ Portable elements ws) (hu : s.unread = ws.flatten ++ rest) :
    s.runAll (elements.map reader) = (.ok elements, s.skip ws.flatten.length) := by
  induction h generalizing s with
  | nil => rfl
  | @cons element w elements ws hw hws ih =>
    rw [List.flatten_cons, List.append_assoc] at hu
    have hfirst := hw.run hu
    have hothers := ih (Stream.unread_skip hu)
    rw [List.map_cons, Stream.runAll_cons hfirst hothers, Stream.skip_skip, List.flatten_cons,
      List.length_append]

theorem encode_of_run_part {sort : String} {reader : Reader Element}
    (hs : (sort, reader) ∈ readers) (hp : sort ∈ partSorts)
    (h : s.run reader = (.ok element, t)) :
    element.sort = sort ∧ t.data = s.data ∧ s.position ≤ t.position ∧
      element.encode = .ok (s.data.extract s.position t.position) := by
  obtain ⟨w, rest, ⟨hsort, hw⟩, hu, rfl⟩ := (takes_reader hs).run_iff.1 h
  refine ⟨hsort, rfl, Nat.le_add_right .., ?_⟩
  have hpassed : s.data.extract s.position (s.position + w.length) = w := by
    rw [Stream.unread] at hu
    rw [List.extract_eq_take_drop, Nat.add_sub_cancel_left, hu, List.take_left' rfl]
  rw [Stream.skip, hpassed]
  exact hw.encode_part (hsort ▸ hp)

/-- Parts are read from a stream exactly as they are written, alone and one after another. -/
theorem parts_exact :
    (∀ sort reader, (sort, reader) ∈ readers → sort ∈ partSorts → ∀ (s t : Stream) element,
      s.run reader = (.ok element, t) → element.sort = sort ∧ t.data = s.data ∧
        s.position ≤ t.position ∧ element.encode = .ok (s.data.extract s.position t.position)) ∧
    (∀ element w, Portable element w → ∀ (s : Stream) rest, s.unread = w ++ rest →
      s.run element.reader = (.ok element, s.skip w.length) ∧ (s.skip w.length).unread = rest) ∧
    ∀ elements ws, List.Forall₂ Portable elements ws →
      ∀ (s : Stream) rest, s.unread = ws.flatten ++ rest →
      s.runAll (elements.map reader) = (.ok elements, s.skip ws.flatten.length) ∧
        (s.skip ws.flatten.length).unread = rest := by
  refine ⟨?_, ?_, ?_⟩
  · intro sort reader hs hp s t element h
    exact encode_of_run_part hs hp h
  · intro element w h s rest hu
    exact ⟨h.run hu, Stream.unread_skip hu⟩
  · intro elements ws h s rest hu
    exact ⟨runAll_portable h hu, Stream.unread_skip hu⟩

end CoinWire.Tx.Element
