import CoinWire.Wire.Reader

/-!
Whole numbers in a fixed width, least significant byte first. Writing refuses a number that is negative or
does not fit; what is written is read back.
-/

namespace CoinWire.Wire.Number

def read (width : Int) (label : String) : Reader Nat := do
  let bytes ← Reader.bytes width label
  pure (ofLittle bytes)

def encode (width : Nat) (n : Int) : Except Failure Bytes :=
  if n < 0 then .error .negativeNumber
  else if capacity width ≤ n then .error .numberTooBig
  else .ok (toLittle width n.toNat)

theorem encode_ofNat {width n : Nat} (h : n < capacity width) :
    encode width n = .ok (toLittle width n) := by
  have hn : ¬ ((n : Int) < 0) := by omega
  have hb : ¬ ((capacity width : Int) ≤ n) := by omega
  simp [encode, hn, hb]

theorem encode_ok {width : Nat} {n : Int} {bytes : Bytes} (h : encode width n = .ok bytes) :
    ∃ m : Nat, n = m ∧ m < capacity width ∧ bytes = toLittle width m := by
  simp only [encode] at h
  split at h
  · simp at h
  · split at h
    · simp at h
    · next hn hb =>
      simp only [Except.ok.injEq] at h
      exact ⟨n.toNat, by omega, by omega, h.symm⟩

end CoinWire.Wire.Number
