import CoinWire.Script.Opcode

/-!
From assembly back to bytes: a mnemonic stands for the byte of its opcode, any other token for the bytes it
spells in hexadecimal.
-/

namespace CoinWire.Script

variable [DigitLimit]

def opcodeOfMnemonic? (token : String) : Option Opcode :=
  ((List.range 256).map fun n => Opcode.ofByte (UInt8.ofNat n)).find? fun op =>
    op.mnemonic.toOption = some token

def byteOfOpcode? (op : Opcode) : Option UInt8 :=
  match op.byte with
  | .ok (some n) => some (UInt8.ofNat n.toNat)
  | _ => none

def bytesOfToken? (token : String) : Option Bytes :=
  match opcodeOfMnemonic? token with
  | some op => (byteOfOpcode? op).map fun b => [b]
  | none => (Hex.decode token).toOption

def assembled? : List String → Option Bytes
  | [] => some []
  | token :: rest => do
    let first ← bytesOfToken? token
    let others ← assembled? rest
    pure (first ++ others)

theorem opcodeOfMnemonic?_eq_some {token : String} {op : Opcode}
    (h : opcodeOfMnemonic? token = some op) : (∃ b, op = .ofByte b) ∧ op.mnemonic = .ok token := by
  have hop := List.find?_some h
  simp only [decide_eq_true_eq] at hop
  obtain ⟨n, -, hn⟩ := List.mem_map.1 (List.mem_of_find?_eq_some h)
  refine ⟨⟨_, hn.symm⟩, ?_⟩
  cases hm : op.mnemonic with
  | error e => simp [hm, Except.toOption] at hop
  | ok text =>
    simp only [hm, Except.toOption, Option.some.injEq] at hop
    rw [hop]

theorem opcodeOfMnemonic?_isSome {token : String} {b : UInt8}
    (h : (Opcode.ofByte b).mnemonic = .ok token) : (opcodeOfMnemonic? token).isSome := by
  rw [opcodeOfMnemonic?, List.find?_isSome]
  refine ⟨.ofByte b, List.mem_map.2 ⟨b.toNat, List.mem_range.2 b.toNat_lt, ?_⟩, ?_⟩
  · rw [UInt8.ofNat_toNat]
  · simp [h, Except.toOption]

theorem assembled?_append {front back : List String} {a b : Bytes} (ha : assembled? front = some a)
    (hb : assembled? back = some b) : assembled? (front ++ back) = some (a ++ b) := by
  induction front generalizing a with
  | nil =>
    simp only [assembled?, Option.some.injEq] at ha
    simp [hb, ← ha]
  | cons token front ih =>
    simp only [assembled?, bind, Option.bind, pure] at ha
    cases hf : bytesOfToken? token with
    | none => simp [hf] at ha
    | some first =>
      cases hr : assembled? front with
      | none => simp [hf, hr] at ha
      | some others =>
        simp only [hf, hr, Option.some.injEq] at ha
        subst ha
        simp [assembled?, hf, ih hr]

end CoinWire.Script
