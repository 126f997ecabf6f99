import CoinWire.Wire.Reader

/-!
A byte stream with a position. Running a reader on it moves the position by as much as the reader
consumed, whether it succeeds or not. A position may lie beyond the end, where there is nothing to read.
-/

namespace CoinWire.Wire

structure Stream where
  data : Bytes
  position : Nat := 0
  deriving DecidableEq, Repr

namespace Stream

def unread (s : Stream) : Bytes := s.data.drop s.position

/-- Positions have the same bounds as lengths. -/
def seek (s : Stream) (position : Int) : Except Failure Stream :=
  if position < -Reader.lengthBound ∨ Reader.lengthBound ≤ position then .error .positionOverflow
  else if position < 0 then .error (.negativePosition position)
  else .ok { s with position := position.toNat }

theorem seek_eq_ok_iff {s t : Stream} {position : Int} :
    s.seek position = .ok t ↔
      0 ≤ position ∧ position < Reader.lengthBound ∧ t = { s with position := position.toNat } := by
  simp only [seek]
  split
  · next h =>
    simp only [Reader.lengthBound] at *
    simp only [reduceCtorEq, false_iff]
    omega
  · next h =>
    split
    · next hn =>
      simp only [reduceCtorEq, false_iff]
      omega
    · next hn =>
      simp only [Except.ok.injEq, eq_comm]
      simp only [Reader.lengthBound] at *
      constructor
      · intro ht
        exact ⟨by omega, by omega, ht⟩
      · exact fun ht => ht.2.2

variable {α : Type}

def run (s : Stream) (reader : Reader α) : Except Failure α × Stream :=
  let move (rest : Bytes) : Stream :=
    { s with position := s.position + (s.unread.length - rest.length) }
  match reader s.unread with
  | .ok a rest => (.ok a, move rest)
  | .error e rest => (.error e, move rest)

end Stream

end CoinWire.Wire
