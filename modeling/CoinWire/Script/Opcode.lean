import CoinWire.Script.Failure

/-!
The opcodes of standard scripts, and their three written forms: byte, mnemonic and label.

An opcode is a kind with an optional value, and any pair can be written down. Only the pairs that
`ofByte` produces stand for a byte: a named kind without a value, a push of 1 to 75 bytes, a small
integer from 2 to 16, and the one unsupported opcode for all bytes left over.
-/

namespace CoinWire.Script

inductive OpKind
  | zero
  | one
  | push
  | small
  | dup
  | hash160
  | equal
  | equalVerify
  | checkSig
  | checkMultisig
  | ret
  | unsupported
  deriving DecidableEq, Repr

structure Opcode where
  kind : OpKind
  value : Option Int := none
  deriving DecidableEq, Repr

def OpKind.byte? : OpKind → Option UInt8
  | zero => some 0x00
  | one => some 0x51
  | ret => some 0x6a
  | dup => some 0x76
  | equal => some 0x87
  | equalVerify => some 0x88
  | hash160 => some 0xa9
  | checkSig => some 0xac
  | checkMultisig => some 0xae
  | push | small | unsupported => none

def OpKind.ofByte? (b : UInt8) : Option OpKind :=
  [zero, one, ret, dup, equal, equalVerify, hash160, checkSig, checkMultisig].find?
    fun kind => kind.byte? = some b

namespace Opcode

def longestPush : Int := 75

/-- A small integer from 1 to 16 is written as this many more than itself. -/
def smallBase : Int := 0x50

def ofByte (b : UInt8) : Opcode :=
  match OpKind.ofByte? b with
  | some kind => ⟨kind, none⟩
  | none =>
    if 1 ≤ (b.toNat : Int) ∧ (b.toNat : Int) ≤ longestPush then ⟨.push, some b.toNat⟩
    else if 2 ≤ b.toNat - smallBase ∧ b.toNat - smallBase ≤ 16 then
      ⟨.small, some (b.toNat - smallBase)⟩
    else ⟨.unsupported, none⟩

def ofInt (n : Int) : Except Failure Opcode :=
  if 0 ≤ n ∧ n ≤ 0xff then .ok (ofByte (UInt8.ofNat n.toNat)) else .error (.notByte n)

def push (n : Int) : Except Failure Opcode :=
  if 1 ≤ n ∧ n ≤ longestPush then .ok ⟨.push, some n⟩ else .error (.pushLength n)

def small (n : Int) : Except Failure Opcode :=
  if n = 1 then .ok ⟨.one, none⟩
  else if 2 ≤ n ∧ n ≤ 16 then .ok ⟨.small, some n⟩
  else .error (.smallInteger n)

/-- The byte of an opcode; none for a push of unstated length. -/
def byte (op : Opcode) : Except Failure (Option Int) :=
  match op.kind with
  | .push => .ok op.value
  | .small =>
    match op.value with
    | some n => .ok (some (smallBase + n))
    | none => .error .unnumbered
  | .unsupported => .error .noByteValue
  | kind =>
    if op.value.isSome then .error .valuedName else .ok (kind.byte?.map fun b => (b.toNat : Int))

/-- A name that ends with a number, which may be unstated or too long to be written. -/
def numbered [DigitLimit] (pre : String) (value : Option Int) : Except Failure String :=
  match value with
  | none => .ok (pre ++ "None")
  | some n => if Decimal.Writable n then .ok (pre ++ toString n) else .error (.tooLong n)

def mnemonic [DigitLimit] (op : Opcode) : Except Failure String :=
  match op.kind with
  | .zero => .ok "OP_0"
  | .one => .ok "OP_1"
  | .push => numbered "OP_PUSHBYTES_" op.value
  | .small => numbered "OP_" op.value
  | .dup => .ok "OP_DUP"
  | .hash160 => .ok "OP_HASH160"
  | .equal => .ok "OP_EQUAL"
  | .equalVerify => .ok "OP_EQUALVERIFY"
  | .checkSig => .ok "OP_CHECKSIG"
  | .checkMultisig => .ok "OP_CHECKMULTISIG"
  | .ret => .ok "OP_RETURN"
  | .unsupported => .error .noMnemonic

/-- Of an opcode whose number is too long to be written, the failure to write it is shown. -/
def label [DigitLimit] (op : Opcode) : String :=
  match op.mnemonic with
  | .ok text => text
  | .error e => if op.kind = .unsupported then "UNSUPPORTED" else e.message

def isPush (op : Opcode) : Bool :=
  op.kind = .push

/-- The number that an opcode from `OP_1` to `OP_16` stands for. -/
def number? (op : Opcode) : Option Int :=
  match op.kind with
  | .one => some 1
  | .small => op.value
  | _ => none

/-- The number that the mnemonic would show, if it is too long to be written. -/
def overlong? [DigitLimit] (op : Opcode) : Option Int :=
  match op.kind with
  | .push | .small => op.value.filter fun n => ¬ Decimal.Writable n
  | _ => none

section Mnemonic

variable [DigitLimit] {op : Opcode} {n : Int} {e : Failure} {pre name : String} {value : Option Int}

theorem overlong?_eq_some (h : op.overlong? = some n) :
    op.value = some n ∧ ¬ Decimal.Writable n := by
  obtain ⟨kind, value⟩ := op
  cases kind with
  | push | small => exact (Option.filter_eq_some_iff.1 h).imp_right of_decide_eq_true
  | _ => cases h

theorem numbered_cases (h : numbered pre value = .ok name) :
    value = none ∧ name = pre ++ "None" ∨ ∃ n, value = some n ∧ name = pre ++ toString n := by
  cases value with
  | none => exact .inl ⟨rfl, (Except.ok.inj h).symm⟩
  | some n =>
    rw [numbered] at h
    split at h
    · exact .inr ⟨n, rfl, (Except.ok.inj h).symm⟩
    · cases h

theorem numbered_eq_error_iff :
    numbered pre value = .error e ↔
      ∃ n, value.filter (fun n => ¬ Decimal.Writable n) = some n ∧ e = .tooLong n := by
  cases value with
  | none => simp [numbered]
  | some n =>
    by_cases hn : Decimal.Writable n
    · simp [numbered, hn]
    · simp [numbered, hn, and_assoc, eq_comm (a := e)]

theorem mnemonic_eq_error_iff :
    op.mnemonic = .error e ↔ op.kind = .unsupported ∧ e = .noMnemonic ∨
      ∃ n, op.overlong? = some n ∧ e = .tooLong n := by
  obtain ⟨kind, value⟩ := op
  cases kind with
  | push | small => simpa [mnemonic, overlong?] using numbered_eq_error_iff
  | unsupported => simp [mnemonic, overlong?, eq_comm]
  | _ => simp [mnemonic, overlong?]

theorem exists_mnemonic (hk : op.kind ≠ .unsupported) (hn : op.overlong? = none) :
    ∃ name, op.mnemonic = .ok name := by
  cases hm : op.mnemonic with
  | ok name => exact ⟨name, rfl⟩
  | error e =>
    obtain ⟨hunsupported, -⟩ | ⟨n, hlong, -⟩ := mnemonic_eq_error_iff.1 hm
    · exact absurd hunsupported hk
    · cases hn.symm.trans hlong

end Mnemonic

end Opcode

end CoinWire.Script
