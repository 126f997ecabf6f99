import CoinWire.Script.Asm
import CoinWire.Script.Cursor

/-!
Steps that read a script and write its assembly text. A step that fails keeps what it had consumed and
emitted up to then, and so does every sequence of steps.
-/

namespace CoinWire.Script

structure Progress where
  cursor : Cursor
  asm : Asm
  deriving DecidableEq, Repr

def Progress.start (data : Bytes) : Progress := ⟨.start data, .empty⟩

abbrev Decoder := EStateM Failure Progress

namespace Decoder

variable {α β : Type}

def ofCursor (read : Cursor → Except Failure (α × Cursor)) : Decoder α := fun p =>
  match read p.cursor with
  | .ok (a, cursor) => .ok a { p with cursor }
  | .error e => .error e p

def demand (result : Except Failure α) : Decoder α := fun p =>
  match result with
  | .ok a => .ok a p
  | .error e => .error e p

def bytes [DigitLimit] (n : Int) : Decoder Bytes := ofCursor (·.read n)

def opcode : Decoder (UInt8 × Opcode) := do
  let b ← ofCursor Cursor.next
  pure (b, .ofByte b)

def emit [DigitLimit] (op : Opcode) : Decoder Unit := fun p =>
  match p.asm.opcode op with
  | .ok asm => .ok () { p with asm }
  | .error e => .error e p

def emitBytes (data : Bytes) : Decoder Unit := fun p =>
  .ok () { p with asm := p.asm.bytes data }

/-- Data that follows its push opcode. -/
def payload [DigitLimit] (length : Int) : Decoder Bytes := do
  let data ← bytes length
  emitBytes data
  pure data

def expect [DigitLimit] (expected : Opcode) : Decoder Unit := do
  let (b, op) ← opcode
  if op = expected then emit op
  else do
    let name ← demand expected.mnemonic
    throw (.mismatch name b.toNat)

def push [DigitLimit] (length : Int) : Decoder Bytes := do
  let op ← demand (Opcode.push length)
  expect op
  payload length

def Shrinks (d : Decoder α) : Prop :=
  ∀ p, match d p with
    | .ok _ q => q.cursor.remaining ≤ p.cursor.remaining
    | .error _ q => q.cursor.remaining ≤ p.cursor.remaining

theorem shrinks_pure (a : α) : Shrinks (pure a) := fun _ => Nat.le_refl _

theorem shrinks_throw (e : Failure) : Shrinks (throw e : Decoder α) := fun _ => Nat.le_refl _

theorem shrinks_bind {d : Decoder α} {f : α → Decoder β} (hd : Shrinks d)
    (hf : ∀ a, Shrinks (f a)) : Shrinks (d >>= f) := by
  intro p
  have h := hd p
  simp only [bind, EStateM.bind]
  cases hr : d p with
  | error e q => simpa only [hr] using h
  | ok a q =>
    simp only [hr] at h
    have hq := hf a q
    simp only
    cases hs : f a q <;> simp only [hs] at hq ⊢ <;> omega

theorem shrinks_emit [DigitLimit] (op : Opcode) : Shrinks (emit op) := by
  intro p
  simp only [emit]
  cases p.asm.opcode op <;> exact Nat.le_refl _

theorem shrinks_bytes [DigitLimit] (n : Int) : Shrinks (bytes n) := by
  intro p
  simp only [bytes, ofCursor, Cursor.read]
  cases p.cursor.peek n with
  | error e => exact Nat.le_refl _
  | ok data => simp [Except.map, Cursor.skip, Cursor.remaining]

theorem shrinks_payload [DigitLimit] (n : Int) : Shrinks (payload n) :=
  shrinks_bind (shrinks_bytes n) fun _ => shrinks_bind (fun _ => Nat.le_refl _) fun _ =>
    shrinks_pure _

theorem opcode_ok {p q : Progress} {r : UInt8 × Opcode} (h : opcode p = .ok r q) :
    p.cursor.unread = r.1 :: q.cursor.unread ∧ r.2 = .ofByte r.1 ∧ q.asm = p.asm := by
  rcases p with ⟨⟨past, _ | ⟨b, rest⟩⟩, asm⟩
  · simp [opcode, ofCursor, Cursor.next, bind, EStateM.bind] at h
  · simp only [opcode, ofCursor, Cursor.next, bind, EStateM.bind, pure, EStateM.pure,
      EStateM.Result.ok.injEq] at h
    obtain ⟨rfl, rfl⟩ := h
    exact ⟨rfl, rfl, rfl⟩

end Decoder

end CoinWire.Script
