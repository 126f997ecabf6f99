import CoinWire.Wire.Failure

/-!
Reading from the unread rest of a byte stream. A reader that fails leaves what it did not consume, and a
read that asks for more than there is consumes all there is.
-/

namespace CoinWire.Wire

abbrev Reader := EStateM Failure Bytes

namespace Reader

/-- A length that a read can take lies below this bound, and not below its negative. -/
def lengthBound : Int := 0x8000000000000000

/-- A negative length takes everything and is never satisfied. -/
def bytes (length : Int) (label : String) : Reader Bytes := fun unread =>
  if length < -lengthBound ∨ lengthBound ≤ length then .error .lengthOverflow unread
  else if length < 0 ∨ (unread.take length.toNat).length < length.toNat then
    .error (.insufficient label) []
  else .ok (unread.take length.toNat) (unread.drop length.toNat)

variable {α : Type}

/-- Reads the stated number of elements, after those already in `done`, the last one first. -/
def collect (element : Reader α) : Nat → List α → Reader (List α)
  | 0, done => pure done.reverse
  | count + 1, done => do
    let a ← element
    collect element count (a :: done)

def many (count : Nat) (element : Reader α) : Reader (List α) :=
  collect element count []

theorem bytes_ok {length : Int} {label : String} {unread rest got : Bytes}
    (h : bytes length label unread = .ok got rest) :
    unread = got ++ rest ∧ (got.length : Int) = length := by
  simp only [bytes] at h
  split at h
  · simp at h
  · split at h
    · simp at h
    · next hn =>
      simp only [EStateM.Result.ok.injEq] at h
      obtain ⟨rfl, rfl⟩ := h
      simp only [not_or, Int.not_lt, Nat.not_lt] at hn
      simp only [List.take_append_drop, true_and]
      have := List.length_take_le length.toNat unread
      omega

theorem bytes_append (got rest : Bytes) (label : String) (h : (got.length : Int) < lengthBound) :
    bytes got.length label (got ++ rest) = .ok got rest := by
  have low : ¬ ((got.length : Int) < -lengthBound ∨ lengthBound ≤ got.length) := by
    simp only [lengthBound] at *
    omega
  simp [bytes, low]

theorem collect_eq_many (element : Reader α) (count : Nat) (done : List α) (unread : Bytes) :
    collect element count done unread =
      match many count element unread with
      | .ok found rest => .ok (done.reverse ++ found) rest
      | .error e rest => .error e rest := by
  induction count generalizing done unread with
  | zero => simp [collect, many, pure, EStateM.pure]
  | succ count ih =>
    simp only [many, collect, bind, EStateM.bind]
    cases element unread with
    | error e rest => rfl
    | ok a rest =>
      simp only [ih (a :: done), ih [a]]
      cases many count element rest <;> simp

theorem many_succ (element : Reader α) (count : Nat) :
    many (count + 1) element = (do
      let a ← element
      let found ← many count element
      pure (a :: found)) := by
  funext unread
  simp only [many, collect, bind, EStateM.bind]
  cases element unread with
  | error e rest => rfl
  | ok a rest =>
    simp only [collect_eq_many element count [a], many]
    cases collect element count [] rest <;> rfl

end Reader

end CoinWire.Wire
