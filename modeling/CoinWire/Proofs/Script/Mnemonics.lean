import CoinWire.Proofs.Script.Opcodes
import CoinWire.Script.Assembler

/-!
Mnemonics tell the opcodes of bytes apart, from each other and from data. Behind the beginning that they
share stands a number, the name of a push with its length, or one of seven words, and the first character
there shows which of the three. None of them can be data, which is never spelled with the letter they begin
with.
-/

namespace CoinWire.Script

theorem append_number_injective {pre : String} {m n : Nat}
    (h : pre ++ toString m = pre ++ toString n) : m = n := by
  have hdigits : Nat.toDigits 10 m = Nat.toDigits 10 n := by
    have hl := congrArg String.toList h
    simp only [String.toList_append, Nat.toString_eq_ofList_toDigits, String.toList_ofList] at hl
    exact List.append_cancel_left hl
  calc
    m = Nat.ofDigitChars 10 (Nat.toDigits 10 m) 0 := Nat.ofDigitChars_ten_toDigits.symm
    _ = Nat.ofDigitChars 10 (Nat.toDigits 10 n) 0 := by rw [hdigits]
    _ = n := Nat.ofDigitChars_ten_toDigits

namespace OpKind

def ofMnemonic? [DigitLimit] (name : String) : Option OpKind :=
  [zero, one, ret, dup, equal, equalVerify, hash160, checkSig, checkMultisig].find?
    fun kind => (Opcode.mk kind none).mnemonic.toOption = some name

theorem ofMnemonic?_of_mnemonic [DigitLimit] {kind : OpKind} {b : UInt8} {name : String}
    (hb : kind.byte? = some b) (hn : (Opcode.mk kind none).mnemonic = .ok name) :
    ofMnemonic? name = some kind := by
  cases kind with
  | zero | one | ret | dup | equal | equalVerify | hash160 | checkSig | checkMultisig =>
    obtain rfl := Except.ok.inj hn
    rfl
  | push | small | unsupported => cases hb

end OpKind

namespace Opcode

/-- The character behind the beginning that all mnemonics share. -/
def initial? (name : String) : Option Char := name.toList[3]?

theorem initial?_number (n : Nat) :
    ∃ c, initial? ("OP_" ++ toString n) = some c ∧ c.isDigit = true := by
  have hn : (toString n).toList = Nat.toDigits 10 n := String.toList_ofList
  have hne : Nat.toDigits 10 n ≠ [] := Nat.toDigits_ne_nil
  obtain ⟨c, rest, hd⟩ := List.exists_cons_of_ne_nil hne
  have hc : c ∈ Nat.toDigits 10 n := by
    rw [hd]
    exact List.mem_cons_self ..
  refine ⟨c, ?_, Nat.isDigit_of_mem_toDigits (by decide) (by decide) hc⟩
  rw [initial?, String.toList_append, hn, hd]
  rfl

theorem initial?_push (n : Nat) : initial? ("OP_PUSHBYTES_" ++ toString n) = some 'P' := by
  rw [initial?, String.toList_append]
  rfl

section Written

variable [DigitLimit]

/-- Zero and one are named and the other numbers are not, but all of them are written alike. -/
theorem mnemonic_cases {b : UInt8} {name : String} (h : (ofByte b).mnemonic = .ok name) :
    (∃ n : Nat, name = "OP_" ++ toString n ∧ b = if n = 0 then 0 else UInt8.ofNat (0x50 + n)) ∨
      (∃ n : Nat, name = "OP_PUSHBYTES_" ++ toString n ∧ b = UInt8.ofNat n) ∨
      ∃ kind : OpKind, kind.byte? = some b ∧ (mk kind none).mnemonic = .ok name ∧
        ∃ c, initial? name = some c ∧ c.isDigit = false ∧ c ≠ 'P' := by
  obtain ⟨kind, hk, ho⟩ | ⟨-, -, ho⟩ | ⟨h1, h2, ho⟩ | ⟨-, ho⟩ := ofByte_cases b
  · rw [ho] at h
    cases kind with
    | zero =>
      obtain rfl := Except.ok.inj h
      exact .inl ⟨0, rfl, (Option.some.inj hk).symm⟩
    | one =>
      obtain rfl := Except.ok.inj h
      exact .inl ⟨1, rfl, (Option.some.inj hk).symm⟩
    | ret | dup | equal | equalVerify | hash160 | checkSig | checkMultisig =>
      obtain rfl := Except.ok.inj h
      exact .inr (.inr ⟨_, hk, rfl, _, rfl, by decide, by decide⟩)
    | push | small | unsupported => cases hk
  · rw [ho, mnemonic_pushed ho] at h
    obtain rfl := Except.ok.inj h
    exact .inr (.inl ⟨b.toNat, rfl, UInt8.ofNat_toNat.symm⟩)
  · have hnumber : (ofByte b).number? = some (b.toNat - smallBase) := by rw [ho]; rfl
    rw [mnemonic_of_number? hnumber] at h
    obtain rfl := Except.ok.inj h
    have hn : (b.toNat : Int) - smallBase = (b.toNat - 0x50 : Nat) := by
      simp only [smallBase]
      omega
    refine .inl ⟨b.toNat - 0x50, ?_, ?_⟩
    · rw [hn]
      rfl
    · rw [if_neg (by omega), Nat.add_sub_cancel' (by omega), UInt8.ofNat_toNat]
  · rw [ho] at h
    cases h

theorem mnemonic_injective {b c : UInt8} {name : String} (hb : (ofByte b).mnemonic = .ok name)
    (hc : (ofByte c).mnemonic = .ok name) : b = c := by
  rcases mnemonic_cases hb with ⟨m, rfl, hm⟩ | ⟨m, rfl, hm⟩ | ⟨k, hk, hname, x, hx, hdigit, hpush⟩
  · obtain ⟨x, hx, hdigit⟩ := initial?_number m
    rcases mnemonic_cases hc with ⟨n, hn, rfl⟩ | ⟨n, hn, -⟩ | ⟨-, -, -, y, hy, hnot, -⟩
    · obtain rfl := append_number_injective hn
      exact hm
    · rw [hn, initial?_push] at hx
      obtain rfl := Option.some.inj hx
      cases hdigit
    · obtain rfl := Option.some.inj (hx.symm.trans hy)
      cases hdigit.symm.trans hnot
  · have hx := initial?_push m
    rcases mnemonic_cases hc with ⟨n, hn, -⟩ | ⟨n, hn, rfl⟩ | ⟨-, -, -, y, hy, -, hne⟩
    · obtain ⟨y, hy, hdigit⟩ := initial?_number n
      rw [hn, hy] at hx
      obtain rfl := Option.some.inj hx
      cases hdigit
    · obtain rfl := append_number_injective hn
      exact hm
    · exact absurd (Option.some.inj (hy.symm.trans hx)) hne
  · rcases mnemonic_cases hc with ⟨n, rfl, -⟩ | ⟨n, rfl, -⟩ | ⟨l, hl, hname', -⟩
    · obtain ⟨y, hy, hyes⟩ := initial?_number n
      obtain rfl := Option.some.inj (hx.symm.trans hy)
      cases hdigit.symm.trans hyes
    · exact absurd (Option.some.inj (hx.symm.trans (initial?_push n))) hpush
    · have hkl := (OpKind.ofMnemonic?_of_mnemonic hk hname).symm.trans
        (OpKind.ofMnemonic?_of_mnemonic hl hname')
      obtain rfl := Option.some.inj hkl
      exact Option.some.inj (hk.symm.trans hl)

theorem byte_of_mnemonic {b : UInt8} {name : String} (h : (ofByte b).mnemonic = .ok name) :
    (ofByte b).byte = .ok (some (b.toNat : Int)) := by
  obtain ⟨kind, hk, ho⟩ | ⟨-, -, ho⟩ | ⟨h1, h2, ho⟩ | ⟨-, ho⟩ := ofByte_cases b
  · rw [ho]
    cases kind with
    | zero | one | ret | dup | equal | equalVerify | hash160 | checkSig | checkMultisig =>
      obtain rfl := Option.some.inj hk
      rfl
    | push | small | unsupported => cases hk
  · rw [ho]
    rfl
  · rw [ho]
    have hn : smallBase + ((b.toNat : Int) - smallBase) = b.toNat := by omega
    simp only [byte, hn]
  · rw [ho] at h
    cases h

/-- Data is spelled in digits, and no digit is the letter that mnemonics begin with. -/
theorem mnemonic_ne_encode {op : Opcode} {name : String} (h : op.mnemonic = .ok name) (data : Bytes) :
    name ≠ Hex.encode data := by
  have hO : name.toList.head? = some 'O' := by
    obtain ⟨kind, value⟩ := op
    cases kind with
    | zero | one | dup | hash160 | equal | equalVerify | checkSig | checkMultisig | ret =>
      obtain rfl := Except.ok.inj h
      rfl
    | push | small =>
      obtain ⟨-, rfl⟩ | ⟨n, -, rfl⟩ := numbered_cases h
      · rfl
      · rw [String.toList_append]
        rfl
    | unsupported => cases h
  intro he
  rw [he, Hex.toList_encode] at hO
  cases data with
  | nil => cases hO
  | cons b rest =>
    have hb : b.toNat < 256 := b.toNat_lt
    obtain ⟨hdigit, -, -⟩ := Hex.digit?_pair (b.toNat / 16) (by omega)
    rw [Option.some.inj hO] at hdigit
    cases hdigit

end Written

end Opcode

theorem bytesOfToken?_of_mnemonic [DigitLimit] {b : UInt8} {name : String}
    (h : (Opcode.ofByte b).mnemonic = .ok name) : bytesOfToken? name = some [b] := by
  obtain ⟨op, hop⟩ := Option.isSome_iff_exists.1 (opcodeOfMnemonic?_isSome h)
  obtain ⟨⟨c, rfl⟩, hc⟩ := opcodeOfMnemonic?_eq_some hop
  obtain rfl := Opcode.mnemonic_injective hc h
  simp only [bytesOfToken?, hop, byteOfOpcode?, Opcode.byte_of_mnemonic h, Int.toNat_natCast,
    UInt8.ofNat_toNat, Option.map_some]

theorem bytesOfToken?_encode [DigitLimit] (data : Bytes) : bytesOfToken? (Hex.encode data) = some data := by
  cases hop : opcodeOfMnemonic? (Hex.encode data) with
  | some op =>
    obtain ⟨-, hm⟩ := opcodeOfMnemonic?_eq_some hop
    exact absurd rfl (Opcode.mnemonic_ne_encode hm data)
  | none => simp only [bytesOfToken?, hop, Hex.decode_encode, Except.toOption]

end CoinWire.Script
