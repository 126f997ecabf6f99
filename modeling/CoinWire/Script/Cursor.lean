import CoinWire.Script.Failure

/-!
A position in a script. The bytes already passed are kept with the last one first, the others in their
order, so that the position and the number of bytes left are the lengths of two lists.

Every operation leaves the data as it is: `peek` and `read` see the same bytes, only `read` moves, and
`backTo` moves back. An operation that fails yields no cursor, so the caller keeps the old one.
-/

namespace CoinWire.Script

structure Cursor where
  past : Bytes
  unread : Bytes
  deriving DecidableEq, Repr

namespace Cursor

def start (data : Bytes) : Cursor := ⟨[], data⟩

def data (c : Cursor) : Bytes := c.past.reverse ++ c.unread

def position (c : Cursor) : Nat := c.past.length

def remaining (c : Cursor) : Nat := c.unread.length

def size (c : Cursor) : Nat := c.position + c.remaining

def atEnd (c : Cursor) : Bool := c.unread.isEmpty

def short (c : Cursor) (needed : Int) : Failure :=
  .unexpectedEnd needed c.position c.remaining

def peek [DigitLimit] (c : Cursor) (n : Int) : Except Failure Bytes :=
  if n < 0 then .error (.negativeRead n)
  else if c.remaining < n then .error (if Decimal.Writable n then c.short n else .tooLong n)
  else .ok (c.unread.take n.toNat)

def skip (c : Cursor) (n : Nat) : Cursor :=
  ⟨(c.unread.take n).reverse ++ c.past, c.unread.drop n⟩

def read [DigitLimit] (c : Cursor) (n : Int) : Except Failure (Bytes × Cursor) :=
  (c.peek n).map fun bytes => (bytes, c.skip n.toNat)

def next (c : Cursor) : Except Failure (UInt8 × Cursor) :=
  match c.unread with
  | [] => .error (c.short 1)
  | b :: rest => .ok (b, ⟨b :: c.past, rest⟩)

def backTo (c : Cursor) (offset : Int) : Except Failure Cursor :=
  if 0 ≤ offset ∧ offset ≤ c.position then
    let back := c.position - offset.toNat
    .ok ⟨c.past.drop back, (c.past.take back).reverse ++ c.unread⟩
  else .error (.rewind offset c.position)

def describe (c : Cursor) : String :=
  s!"ByteCursor(position={c.position}, length={c.size})"

@[simp] theorem data_start (data : Bytes) : (start data).data = data := by
  simp [start, Cursor.data]

theorem length_data (c : Cursor) : c.data.length = c.size := by
  simp [Cursor.data, size, position, remaining]

theorem unread_eq_drop (c : Cursor) : c.unread = c.data.drop c.position := by
  simp [Cursor.data, position]

@[simp] theorem data_skip (c : Cursor) (n : Nat) : (c.skip n).data = c.data := by
  simp [Cursor.data, skip]

theorem position_skip (c : Cursor) (n : Nat) (h : n ≤ c.remaining) :
    (c.skip n).position = c.position + n := by
  simp only [remaining] at h
  simp only [position, skip, List.length_append, List.length_reverse, List.length_take]
  omega

theorem data_backTo {c d : Cursor} {offset : Int} (h : c.backTo offset = .ok d) :
    d.data = c.data ∧ (d.position : Int) = offset := by
  simp only [backTo] at h
  split at h
  · next hb =>
    cases h
    constructor
    · simp only [Cursor.data, ← List.append_assoc, ← List.reverse_append, List.take_append_drop]
    · simp only [position, List.length_drop] at *
      omega
  · simp at h

end Cursor

end CoinWire.Script
