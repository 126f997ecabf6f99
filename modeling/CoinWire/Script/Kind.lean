import CoinWire.Script.Cursor
import CoinWire.Script.Opcode

/-!
The kinds of standard scripts, and the rule that tells them apart by their first one or two opcodes.

Only a leading zero or small integer needs the second opcode. Nothing is consumed, so the decoder of the
kind found starts at the same byte.
-/

namespace CoinWire.Script

inductive Kind
  | p2pk
  | p2pkh
  | p2sh
  | p2wpkh
  | p2wsh
  | p2tr
  | multisig
  | dataCarrier
  deriving DecidableEq, Repr

namespace Kind

def all : List Kind := [p2pk, p2pkh, p2sh, p2wpkh, p2wsh, p2tr, multisig, dataCarrier]

def name : Kind → String
  | p2pk => "P2PK"
  | p2pkh => "P2PKH"
  | p2sh => "P2SH"
  | p2wpkh => "P2WPKH"
  | p2wsh => "P2WSH"
  | p2tr => "P2TR"
  | multisig => "MULTISIG"
  | dataCarrier => "DATA_CARRIER"

def ofName? (name : String) : Option Kind :=
  all.find? (·.name = name)

def templateName (kind : Kind) : String :=
  let title := match kind with
    | multisig => "Multisig"
    | dataCarrier => "DataCarrier"
    | kind => kind.name
  title ++ "_Template(" ++ kind.name ++ ")"

theorem mem_all (kind : Kind) : kind ∈ all := by
  cases kind <;> decide

theorem name_injective {a b : Kind} (h : a.name = b.name) : a = b := by
  revert h
  cases a <;> cases b <;> decide

def ofLeading? (op : Opcode) : Option Kind :=
  if op = ⟨.push, some 65⟩ then some p2pk
  else if op = ⟨.dup, none⟩ then some p2pkh
  else if op = ⟨.hash160, none⟩ then some p2sh
  else if op = ⟨.ret, none⟩ then some dataCarrier
  else none

def ofWitnessProgram? (op : Opcode) : Option Kind :=
  if op = ⟨.push, some 20⟩ then some p2wpkh
  else if op = ⟨.push, some 32⟩ then some p2wsh
  else none

end Kind

def Cursor.kind (c : Cursor) : Except Failure Kind :=
  match c.unread with
  | [] => .error (c.short 1)
  | first :: rest =>
    match Kind.ofLeading? (.ofByte first) with
    | some kind => .ok kind
    | none =>
      if Opcode.ofByte first = ⟨.zero, none⟩ then
        match rest with
        | [] => .error (c.short 2)
        | second :: _ =>
          match Kind.ofWitnessProgram? (.ofByte second) with
          | some kind => .ok kind
          | none =>
            .error (.mismatch "OP_PUSHBYTES_20 or OP_PUSHBYTES_32 after OP_0" second.toNat)
      else if (Opcode.ofByte first).number?.isSome then
        match rest with
        | [] => .error (c.short 2)
        | second :: _ =>
          if Opcode.ofByte first = ⟨.one, none⟩ ∧ Opcode.ofByte second = ⟨.push, some 32⟩ then
            .ok .p2tr
          else .ok .multisig
      else .error (.unrecognized first.toNat)

def kind (script : Bytes) : Except Failure Kind :=
  (Cursor.start script).kind

end CoinWire.Script
