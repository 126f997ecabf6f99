import CoinWire.Proofs.Script.Mnemonics

/-!
The byte, the opcode and the mnemonic as views of one thing. An opcode may be any pair of a kind and a value,
but only the well-formed ones come from a byte and go back to it. The others have no byte, or share one
with a well-formed opcode, or have a number that is no byte.
-/

namespace CoinWire.Script

namespace Opcode

/-- A name without a value, a push of a direct length, or a small integer that has no name. -/
def WellFormed : Opcode → Prop
  | ⟨.push, some n⟩ => 1 ≤ n ∧ n ≤ 75
  | ⟨.small, some n⟩ => 2 ≤ n ∧ n ≤ 16
  | ⟨.push, none⟩ | ⟨.small, none⟩ | ⟨.unsupported, _⟩ => False
  | ⟨_, value⟩ => value = none

instance : DecidablePred WellFormed := fun op => by
  unfold WellFormed
  split <;> infer_instance

variable {op : Opcode} {b : UInt8} {n : Int}

theorem wellFormed_named {kind : OpKind} (h : kind.byte? = some b) : WellFormed ⟨kind, none⟩ := by
  cases kind with
  | zero | one | ret | dup | equal | equalVerify | hash160 | checkSig | checkMultisig => exact rfl
  | push | small | unsupported => cases h

theorem ofByte_small (h2 : 2 ≤ n) (h16 : n ≤ 16) (hb : (b.toNat : Int) = smallBase + n) :
    ofByte b = ⟨.small, some n⟩ := by
  have hn : (b.toNat : Int) - smallBase = n := by omega
  simp only [smallBase] at hb
  obtain ⟨kind, hk, -⟩ | ⟨-, h75, -⟩ | ⟨-, -, ho⟩ | ⟨hr, -⟩ := ofByte_cases b
  · obtain ⟨-, hr⟩ | ⟨-, hr⟩ | hr := OpKind.byte?_range hk <;> omega
  · omega
  · rw [ho, hn]
  · omega

theorem wellFormed_ofByte (h : ofByte b ≠ ⟨.unsupported, none⟩) : (ofByte b).WellFormed := by
  obtain ⟨kind, hk, ho⟩ | ⟨h1, h75, ho⟩ | ⟨h52, h60, ho⟩ | ⟨-, ho⟩ := ofByte_cases b
  · rw [ho]
    exact wellFormed_named hk
  · rw [ho]
    simp only [WellFormed]
    omega
  · rw [ho]
    simp only [WellFormed, smallBase]
    omega
  · exact absurd ho h

theorem WellFormed.exists_ofByte (h : op.WellFormed) : ∃ b, ofByte b = op := by
  obtain ⟨kind, value⟩ := op
  cases kind with
  | push =>
    cases value with
    | none => exact h.elim
    | some n =>
      obtain ⟨h1, h75⟩ := h
      obtain ⟨k, rfl⟩ := Int.eq_ofNat_of_zero_le (by omega : 0 ≤ n)
      exact ⟨UInt8.ofNat k, ofByte_pushed_iff.2 ⟨by omega, by omega, rfl⟩⟩
  | small =>
    cases value with
    | none => exact h.elim
    | some n =>
      obtain ⟨h2, h16⟩ := h
      obtain ⟨k, rfl⟩ := Int.eq_ofNat_of_zero_le (by omega : 0 ≤ n)
      refine ⟨UInt8.ofNat (0x50 + k), ofByte_small h2 h16 ?_⟩
      rw [UInt8.toNat_ofNat_of_lt' (by omega : 0x50 + k < 256)]
      rfl
  | unsupported => exact h.elim
  | zero | one | ret | dup | equal | equalVerify | hash160 | checkSig | checkMultisig =>
    obtain rfl : value = none := h
    exact ⟨_, ofByte_named rfl⟩

theorem WellFormed.exists_mnemonic (h : op.WellFormed) : ∃ name, op.mnemonic = .ok name := by
  have hk : op.kind ≠ .unsupported := by
    obtain ⟨kind, value⟩ := op
    rintro rfl
    exact h.elim
  obtain ⟨b, rfl⟩ := h.exists_ofByte
  exact exists_mnemonic hk (overlong?_ofByte b)

theorem byte_ofByte (h : (ofByte b).WellFormed) : (ofByte b).byte = .ok (some (b.toNat : Int)) := by
  obtain ⟨name, hm⟩ := h.exists_mnemonic
  exact byte_of_mnemonic hm

theorem ofInt_eq_ok_iff : ofInt n = .ok op ↔ ∃ b : UInt8, n = b.toNat ∧ op = ofByte b := by
  constructor
  · intro h
    rw [ofInt] at h
    split at h
    · next hn =>
      refine ⟨UInt8.ofNat n.toNat, ?_, (Except.ok.inj h).symm⟩
      rw [UInt8.toNat_ofNat_of_lt' (by omega : n.toNat < 256)]
      omega
    · cases h
  · intro h
    obtain ⟨b, rfl, rfl⟩ := h
    have hb : b.toNat < 256 := b.toNat_lt
    rw [ofInt, if_pos (by omega), Int.toNat_natCast, UInt8.ofNat_toNat]

theorem ne_unsupported_of_byte {value : Option Int} (h : op.byte = .ok value) :
    op ≠ ⟨.unsupported, none⟩ := by
  rintro rfl
  cases h

theorem wellFormed_of_ofInt_byte (hb : op.byte = .ok (some n)) (ho : ofInt n = .ok op) :
    op.WellFormed := by
  obtain ⟨b, -, rfl⟩ := ofInt_eq_ok_iff.1 ho
  exact wellFormed_ofByte (ne_unsupported_of_byte hb)

/-- Exactly the well-formed opcodes are written as a byte that is read as them. On these no two have the
same mnemonic, and every byte that is read as any opcode but the unsupported one is written again. -/
theorem views_agree :
    (∀ op : Opcode, (∃ n : Int, op.byte = .ok (some n) ∧ 0 ≤ n ∧ n ≤ 0xff ∧ ofInt n = .ok op) ↔
      op.WellFormed) ∧
    (∀ op : Opcode, ¬ op.WellFormed →
      (∃ e, op.byte = .error e) ∨ op.byte = .ok none ∨
        ∃ n, op.byte = .ok (some n) ∧
          ((∃ e, ofInt n = .error e) ∨ ∃ other, ofInt n = .ok other ∧ other ≠ op)) ∧
    (∀ op : Opcode, op.WellFormed → ∃ name, op.mnemonic = .ok name) ∧
    (∀ (op other : Opcode) (name : String), op.WellFormed → other.WellFormed →
      op.mnemonic = .ok name → other.mnemonic = .ok name → op = other) ∧
    ∀ (n : Int) (op : Opcode), ofInt n = .ok op → op ≠ ⟨.unsupported, none⟩ →
      op.WellFormed ∧ op.byte = .ok (some n) := by
  refine ⟨fun op => ⟨fun h => ?_, fun h => ?_⟩, fun op h => ?_, fun op => WellFormed.exists_mnemonic,
    fun op other name h ho hn hname => ?_, fun n op h hne => ?_⟩
  · obtain ⟨n, hb, -, -, ho⟩ := h
    exact wellFormed_of_ofInt_byte hb ho
  · obtain ⟨b, rfl⟩ := h.exists_ofByte
    have hb : b.toNat < 256 := b.toNat_lt
    exact ⟨b.toNat, byte_ofByte h, by omega, by omega, ofInt_eq_ok_iff.2 ⟨b, rfl, rfl⟩⟩
  · cases hb : op.byte with
    | error e => exact .inl ⟨e, rfl⟩
    | ok value =>
      cases value with
      | none => exact .inr (.inl rfl)
      | some n =>
        refine .inr (.inr ⟨n, rfl, ?_⟩)
        cases ho : ofInt n with
        | error e => exact .inl ⟨e, rfl⟩
        | ok other =>
          refine .inr ⟨other, rfl, ?_⟩
          rintro rfl
          exact h (wellFormed_of_ofInt_byte hb ho)
  -- Mnemonics in general are not injective, as named kinds may have values; those of bytes are.
  · obtain ⟨b, rfl⟩ := h.exists_ofByte
    obtain ⟨c, rfl⟩ := ho.exists_ofByte
    rw [mnemonic_injective hn hname]
  · obtain ⟨b, rfl, rfl⟩ := ofInt_eq_ok_iff.1 h
    have hw := wellFormed_ofByte hne
    exact ⟨hw, byte_ofByte hw⟩

/-- A push that is not well formed may have the byte of another opcode. -/
example : byte ⟨.push, some 0x51⟩ = byte ⟨.one, none⟩ := rfl

end Opcode

end CoinWire.Script
