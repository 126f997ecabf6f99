import CoinWire.Script.Opcode

/-!
Which bytes stand for which opcode. Named opcodes have one byte each, none of them where the bytes of pushes
and of small integers lie, and so every opcode that is not unsupported is decoded from one byte only.
-/

namespace CoinWire.Script

theorem toNat_eq_iff {b : UInt8} {n : Nat} (hn : n < 256) :
    (b.toNat : Int) = n ↔ b = UInt8.ofNat n := by
  rw [← UInt8.toNat_inj, UInt8.toNat_ofNat_of_lt' hn, Int.ofNat_inj]

namespace OpKind

/-- Zero lies below the pushes, one between them and the numbers, all other names above. -/
theorem byte?_range {kind : OpKind} {b : UInt8} (h : kind.byte? = some b) :
    (kind = .zero ∧ b.toNat = 0) ∨ (kind = .one ∧ b.toNat = 0x51) ∨ 0x60 < b.toNat := by
  cases kind with
  | zero | one | ret | dup | equal | equalVerify | hash160 | checkSig | checkMultisig =>
    obtain rfl := Option.some.inj h
    decide
  | push | small | unsupported => cases h

theorem ofByte?_eq_some_iff {b : UInt8} {kind : OpKind} :
    ofByte? b = some kind ↔ kind.byte? = some b := by
  constructor
  · intro h
    have hb := List.find?_some h
    exact of_decide_eq_true hb
  · intro h
    cases kind with
    | zero | one | ret | dup | equal | equalVerify | hash160 | checkSig | checkMultisig =>
      obtain rfl := Option.some.inj h
      rfl
    | push | small | unsupported => cases h

end OpKind

namespace Opcode

theorem ofByte_named {kind : OpKind} {b : UInt8} (h : kind.byte? = some b) :
    ofByte b = ⟨kind, none⟩ := by
  rw [ofByte, OpKind.ofByte?_eq_some_iff.2 h]

theorem ofByte_cases (b : UInt8) :
    (∃ kind : OpKind, kind.byte? = some b ∧ ofByte b = ⟨kind, none⟩) ∨
      (1 ≤ b.toNat ∧ b.toNat ≤ 75 ∧ ofByte b = ⟨.push, some b.toNat⟩) ∨
      (0x52 ≤ b.toNat ∧ b.toNat ≤ 0x60 ∧ ofByte b = ⟨.small, some (b.toNat - smallBase)⟩) ∨
      ((75 < b.toNat ∧ b.toNat < 0x51 ∨ 0x60 < b.toNat) ∧ ofByte b = ⟨.unsupported, none⟩) := by
  cases hn : OpKind.ofByte? b with
  | some kind =>
    have hk := OpKind.ofByte?_eq_some_iff.1 hn
    exact .inl ⟨kind, hk, ofByte_named hk⟩
  | none =>
    refine .inr ?_
    have hne (kind : OpKind) (c : UInt8) (hc : kind.byte? = some c) : b.toNat ≠ c.toNat := by
      intro h
      rw [UInt8.toNat_inj.1 h, OpKind.ofByte?_eq_some_iff.2 hc] at hn
      cases hn
    have h0 : b.toNat ≠ 0 := hne .zero 0 rfl
    have h1 : b.toNat ≠ 0x51 := hne .one 0x51 rfl
    simp only [ofByte, hn]
    by_cases hp : 1 ≤ (b.toNat : Int) ∧ (b.toNat : Int) ≤ longestPush
    · rw [if_pos hp]
      simp only [longestPush] at hp
      exact .inl ⟨by omega, by omega, rfl⟩
    · rw [if_neg hp]
      by_cases hs : 2 ≤ b.toNat - smallBase ∧ b.toNat - smallBase ≤ 16
      · rw [if_pos hs]
        simp only [smallBase] at hs
        exact .inr (.inl ⟨by omega, by omega, rfl⟩)
      · rw [if_neg hs]
        simp only [longestPush] at hp
        simp only [smallBase] at hs
        exact .inr (.inr ⟨by omega, rfl⟩)

theorem ofByte_named_iff {kind : OpKind} {c : UInt8} (h : kind.byte? = some c) {b : UInt8} :
    ofByte b = ⟨kind, none⟩ ↔ b = c := by
  constructor
  · intro hb
    obtain ⟨k, hk, he⟩ | ⟨-, -, he⟩ | ⟨-, -, he⟩ | ⟨-, he⟩ := ofByte_cases b
    · obtain ⟨rfl, -⟩ := Opcode.mk.inj (hb.symm.trans he)
      exact Option.some.inj (hk.symm.trans h)
    · cases hb.symm.trans he
    · cases hb.symm.trans he
    · obtain ⟨rfl, -⟩ := Opcode.mk.inj (hb.symm.trans he)
      cases h
  · intro hb
    rw [hb]
    exact ofByte_named h

theorem ofByte_push_iff {b : UInt8} {n : Int} :
    ofByte b = ⟨.push, some n⟩ ↔ 1 ≤ n ∧ n ≤ longestPush ∧ (b.toNat : Int) = n := by
  constructor
  · intro hb
    obtain ⟨k, -, he⟩ | ⟨h1, h2, he⟩ | ⟨-, -, he⟩ | ⟨-, he⟩ := ofByte_cases b
    · cases hb.symm.trans he
    · obtain ⟨-, hn⟩ := Opcode.mk.inj (hb.symm.trans he)
      rw [Option.some.inj hn]
      refine ⟨by omega, ?_, rfl⟩
      simp only [longestPush]
      omega
    · cases hb.symm.trans he
    · cases hb.symm.trans he
  · intro h
    obtain ⟨h1, h2, rfl⟩ := h
    simp only [longestPush] at h2
    obtain ⟨k, hk, -⟩ | ⟨-, -, he⟩ | ⟨h3, -, -⟩ | ⟨hr, -⟩ := ofByte_cases b
    · obtain ⟨-, hr⟩ | ⟨-, hr⟩ | hr := OpKind.byte?_range hk
      · omega
      · omega
      · omega
    · exact he
    · omega
    · omega

theorem ofByte_pushed_iff {b : UInt8} {n : Nat} :
    ofByte b = ⟨.push, some (n : Int)⟩ ↔ 1 ≤ n ∧ n ≤ 75 ∧ b = UInt8.ofNat n := by
  rw [ofByte_push_iff]
  simp only [longestPush]
  constructor
  · intro h
    obtain ⟨h1, h2, hn⟩ := h
    exact ⟨by omega, by omega, (toNat_eq_iff (by omega)).1 hn⟩
  · intro h
    obtain ⟨h1, h2, hn⟩ := h
    exact ⟨by omega, by omega, (toNat_eq_iff (by omega)).2 hn⟩

theorem push_eq_ok_iff {n : Int} {op : Opcode} :
    push n = .ok op ↔ 1 ≤ n ∧ n ≤ longestPush ∧ op = ⟨.push, some n⟩ := by
  rw [push]
  by_cases h : 1 ≤ n ∧ n ≤ longestPush
  · rw [if_pos h, Except.ok.injEq]
    constructor
    · intro ho
      exact ⟨h.1, h.2, ho.symm⟩
    · intro ho
      exact ho.2.2.symm
  · rw [if_neg h]
    simp only [reduceCtorEq, false_iff]
    intro ho
    exact h ⟨ho.1, ho.2.1⟩

theorem number?_ofByte_iff {b : UInt8} {n : Int} :
    (ofByte b).number? = some n ↔ 1 ≤ n ∧ n ≤ 16 ∧ (b.toNat : Int) = smallBase + n := by
  simp only [smallBase]
  obtain ⟨k, hk, he⟩ | ⟨h1, h2, he⟩ | ⟨h1, h2, he⟩ | ⟨hr, he⟩ := ofByte_cases b
  · rw [he]
    obtain ⟨rfl, hr⟩ | ⟨rfl, hr⟩ | hr := OpKind.byte?_range hk
    · simp only [number?, reduceCtorEq, false_iff]
      omega
    · simp only [number?, Option.some.injEq]
      omega
    · have hnone : number? ⟨k, none⟩ = none := by
        cases k with
        | one => cases hk; contradiction
        | zero | push | small | ret | dup | equal | equalVerify | hash160 | checkSig | checkMultisig
          | unsupported => rfl
      rw [hnone]
      simp only [reduceCtorEq, false_iff]
      omega
  · rw [he]
    simp only [number?, reduceCtorEq, false_iff]
    omega
  · rw [he]
    simp only [number?, Option.some.injEq, smallBase]
    omega
  · rw [he]
    simp only [number?, reduceCtorEq, false_iff]
    omega

section Written

variable [DigitLimit] {b : UInt8} {n : Int}

/-- The number of a byte has two digits at most. -/
theorem writable_ofByte (h : (ofByte b).value = some n) : Decimal.Writable n := by
  obtain ⟨k, -, he⟩ | ⟨h1, h2, he⟩ | ⟨h1, h2, he⟩ | ⟨-, he⟩ := ofByte_cases b
  · rw [he] at h
    cases h
  · rw [he] at h
    obtain rfl := Option.some.inj h
    exact Decimal.writable_of_lt_hundred (by omega)
  · rw [he] at h
    obtain rfl := Option.some.inj h
    simp only [smallBase]
    exact Decimal.writable_of_lt_hundred (by omega)
  · rw [he] at h
    cases h

theorem overlong?_ofByte (b : UInt8) : (ofByte b).overlong? = none := by
  cases hn : (ofByte b).overlong? with
  | none => rfl
  | some n =>
    obtain ⟨hvalue, hlong⟩ := overlong?_eq_some hn
    exact absurd (writable_ofByte hvalue) hlong

theorem exists_mnemonic_named {kind : OpKind} (h : kind.byte? = some b) :
    ∃ name, (mk kind none).mnemonic = .ok name := by
  cases kind with
  | zero | one | ret | dup | equal | equalVerify | hash160 | checkSig | checkMultisig =>
    exact ⟨_, rfl⟩
  | push | small | unsupported => cases h

theorem writable_direct (h1 : 1 ≤ n) (h75 : n ≤ longestPush) : Decimal.Writable n := by
  simp only [longestPush] at h75
  exact Decimal.writable_of_lt_hundred (by omega)

theorem writable_of_push {op : Opcode} (h : push n = .ok op) : Decimal.Writable n := by
  obtain ⟨h1, h75, -⟩ := push_eq_ok_iff.1 h
  exact writable_direct h1 h75

theorem mnemonic_push (hn : Decimal.Writable n) :
    (mk .push (some n)).mnemonic = .ok ("OP_PUSHBYTES_" ++ toString n) :=
  if_pos hn

theorem writable_key : Decimal.Writable 65 :=
  writable_direct (by decide) (by decide)

theorem mnemonic_key : (mk .push (some 65)).mnemonic = .ok "OP_PUSHBYTES_65" :=
  mnemonic_push writable_key

theorem mnemonic_pushed (h : ofByte b = ⟨.push, some n⟩) :
    (mk .push (some n)).mnemonic = .ok ("OP_PUSHBYTES_" ++ toString n) :=
  mnemonic_push (writable_ofByte (congrArg value h))

theorem mnemonic_of_number? (h : (ofByte b).number? = some n) :
    (ofByte b).mnemonic = .ok ("OP_" ++ toString n) := by
  have hn : Decimal.Writable n := by
    obtain ⟨h1, h16, -⟩ := number?_ofByte_iff.1 h
    exact Decimal.writable_of_lt_hundred (by omega)
  generalize ofByte b = op at h ⊢
  obtain ⟨kind, value⟩ := op
  cases kind with
  | one =>
    obtain rfl := Option.some.inj h
    rfl
  | small =>
    obtain rfl : value = some n := h
    exact if_pos hn
  | zero | push | dup | hash160 | equal | equalVerify | checkSig | checkMultisig | ret
    | unsupported => cases h

end Written

end Opcode

end CoinWire.Script
