import CoinWire.Bytes

/-!
Hexadecimal text of byte strings, in lower case, two digits a byte.

`decode` is more liberal than `encode`: it takes both cases and passes over blanks between bytes, never
inside one. A text it refuses is reported by the position of the first character that is not the digit
expected there; a character outside ASCII anywhere in the text is reported before everything else.
-/

namespace CoinWire.Hex

def pair (b : UInt8) : List Char :=
  [Nat.digitChar (b.toNat / 16), Nat.digitChar (b.toNat % 16)]

def encode (bs : Bytes) : String :=
  String.ofList (bs.flatMap pair)

@[simp] theorem toList_encode (bs : Bytes) : (encode bs).toList = bs.flatMap pair := by
  simp [encode]

def digit? (c : Char) : Option Nat :=
  if '0' ≤ c ∧ c ≤ '9' then some (c.toNat - '0'.toNat)
  else if 'a' ≤ c ∧ c ≤ 'f' then some (c.toNat - 'a'.toNat + 10)
  else if 'A' ≤ c ∧ c ≤ 'F' then some (c.toNat - 'A'.toNat + 10)
  else none

/-- Space, tab, line feed, vertical tab, form feed and carriage return. -/
def isBlank (c : Char) : Bool :=
  c = ' ' ∨ ('\t' ≤ c ∧ c ≤ '\r')

/-- Reads from a position on; `done` holds the bytes read so far, the last one first. -/
def scan (position : Nat) (done : Bytes) : List Char → Except Nat Bytes
  | [] => .ok done.reverse
  | c :: rest =>
    if isBlank c then scan (position + 1) done rest
    else match digit? c, rest with
      | none, _ => .error position
      | some _, [] => .error (position + 1)
      | some high, d :: rest =>
        match digit? d with
        | none => .error (position + 1)
        | some low => scan (position + 2) (UInt8.ofNat (16 * high + low) :: done) rest

def decode (text : String) : Except Nat Bytes :=
  match text.toList.findIdx? (127 < ·.toNat) with
  | some position => .error position
  | none => scan 0 [] text.toList

def fault (position : Nat) : String :=
  s!"non-hexadecimal number found in fromhex() arg at position {position}"

def ofNat (n : Nat) : String :=
  String.ofList (Nat.toDigits 16 n)

/-- A number in at least two characters, of which the sign of a negative one counts as the first. -/
def ofInt (n : Int) : String :=
  if n < 0 then "-" ++ ofNat n.natAbs
  else if n < 16 then "0" ++ ofNat n.natAbs
  else ofNat n.natAbs

theorem digit?_pair (n : Nat) (h : n < 16) :
    digit? (Nat.digitChar n) = some n ∧ isBlank (Nat.digitChar n) = false ∧
      (Nat.digitChar n).toNat < 128 := by
  have key : ∀ k : Fin 16, digit? (Nat.digitChar k) = some k.val ∧
      isBlank (Nat.digitChar k) = false ∧ (Nat.digitChar k).toNat < 128 := by decide
  exact key ⟨n, h⟩

theorem scan_pair (position : Nat) (done : Bytes) (b : UInt8) (rest : List Char) :
    scan position done (pair b ++ rest) = scan (position + 2) (b :: done) rest := by
  have hb : b.toNat < 256 := b.toNat_lt
  obtain ⟨h1, h2, -⟩ := digit?_pair (b.toNat / 16) (by omega)
  obtain ⟨h3, -, -⟩ := digit?_pair (b.toNat % 16) (by omega)
  have hv : UInt8.ofNat (16 * (b.toNat / 16) + b.toNat % 16) = b := by
    rw [Nat.div_add_mod]
    exact UInt8.ofNat_toNat
  simp [pair, scan, h1, h2, h3, hv]

theorem scan_encode (position : Nat) (done bs : Bytes) :
    scan position done (bs.flatMap pair) = .ok (done.reverse ++ bs) := by
  induction bs generalizing position done with
  | nil => simp [scan]
  | cons b bs ih => simp [scan_pair, ih]

theorem decode_encode (bs : Bytes) : decode (encode bs) = .ok bs := by
  have ascii : (bs.flatMap pair).findIdx? (127 < ·.toNat) = none := by
    rw [List.findIdx?_eq_none_iff]
    intro c hc
    obtain ⟨b, -, hc⟩ := List.mem_flatMap.1 hc
    have hb : b.toNat < 256 := b.toNat_lt
    have h1 := (digit?_pair (b.toNat / 16) (by omega)).2.2
    have h2 := (digit?_pair (b.toNat % 16) (by omega)).2.2
    simp only [pair, List.mem_cons, List.not_mem_nil, or_false] at hc
    rcases hc with rfl | rfl <;> simp <;> omega
  simp [decode, ascii, scan_encode]

end CoinWire.Hex
