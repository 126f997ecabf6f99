import CoinWire.Script.Decoder
import CoinWire.Script.Kind

/-!
The shape of each kind of standard script, as a decoder that consumes one script of that shape and emits
its assembly.

Six kinds are patterns: a fixed sequence of opcodes and pushes of stated length. A data carrier pushes any
direct length. A multisig script lists its keys before their number is known, so its decoder reads on
until it meets the number, each step leaving fewer bytes to read.
-/

namespace CoinWire.Script

variable [DigitLimit]

inductive Step
  | opcode (op : Opcode)
  | push (length : Int)
  deriving DecidableEq, Repr

def Step.decode : Step → Decoder Unit
  | opcode op => Decoder.expect op
  | push length => discard (Decoder.push length)

abbrev Pattern := List Step

def Pattern.decode : Pattern → Decoder Unit
  | [] => pure ()
  | step :: rest => do
    step.decode
    Pattern.decode rest

namespace Pattern

def p2pk : Pattern := [.push 65, .opcode ⟨.checkSig, none⟩]

def p2pkh : Pattern :=
  [.opcode ⟨.dup, none⟩, .opcode ⟨.hash160, none⟩, .push 20, .opcode ⟨.equalVerify, none⟩,
    .opcode ⟨.checkSig, none⟩]

def p2sh : Pattern := [.opcode ⟨.hash160, none⟩, .push 20, .opcode ⟨.equal, none⟩]

def p2wpkh : Pattern := [.opcode ⟨.zero, none⟩, .push 20]

def p2wsh : Pattern := [.opcode ⟨.zero, none⟩, .push 32]

def p2tr : Pattern := [.opcode ⟨.one, none⟩, .push 32]

end Pattern

namespace Decoder

def dataCarrier : Decoder Unit := do
  expect ⟨.ret, none⟩
  let (b, op) ← opcode
  match op.kind, op.value with
  | .push, some length => do
    emit op
    discard (payload length)
  | _, _ => throw (.pushExpected b.toNat)

def threshold : Decoder Int := do
  let (b, op) ← opcode
  match op.number? with
  | some n => do
    emit op
    pure n
  | none => throw (.mismatch "OP_1..OP_16" b.toNat)

/-- Takes a key, or the number of keys that ends the list. -/
def keyOrCount : Decoder (Option Int) := do
  let (b, op) ← opcode
  if op = ⟨.push, some 65⟩ then do
    emit op
    let _ ← payload 65
    pure none
  else match op.number? with
    | some n => do
      emit op
      pure (some n)
    | none => throw (.multisigBody b.toNat)

theorem keyOrCount_ok {p q : Progress} {r : Option Int} (h : keyOrCount p = .ok r q) :
    q.cursor.remaining < p.cursor.remaining := by
  simp only [keyOrCount, bind, EStateM.bind] at h
  cases ho : opcode p with
  | error e p' => simp [ho] at h
  | ok r p' =>
    rcases r with ⟨b, op⟩
    have hp : p'.cursor.remaining < p.cursor.remaining := by
      simp only [Cursor.remaining, (opcode_ok ho).1, List.length_cons]
      omega
    have tail : Shrinks (if op = ⟨.push, some 65⟩ then
        (emit op >>= fun _ => payload 65 >>= fun _ => pure none)
      else match op.number? with
        | some n => (emit op >>= fun _ => pure (some n))
        | none => throw (.multisigBody b.toNat) : Decoder (Option Int)) := by
      split
      · exact shrinks_bind (shrinks_emit op) fun _ => shrinks_bind (shrinks_payload 65) fun _ =>
          shrinks_pure _
      · split
        · exact shrinks_bind (shrinks_emit op) fun _ => shrinks_pure _
        · exact shrinks_throw _
    simp only [ho] at h
    have hq := tail p'
    simp only [bind] at hq
    rw [h] at hq
    simp only at hq
    omega

/-- Takes keys up to their declared number, and returns both numbers, the one observed first. -/
def keys (observed : Nat) (p : Progress) : EStateM.Result Failure Progress (Nat × Int) :=
  match h : keyOrCount p with
  | .error e q => .error e q
  | .ok (some declared) q => .ok (observed, declared) q
  | .ok none q => keys (observed + 1) q
termination_by p.cursor.remaining
decreasing_by exact keyOrCount_ok h

def multisig : Decoder Unit := do
  let required ← threshold
  let (observed, declared) ← keys 0
  if observed ≠ declared then throw (.keyCount declared observed)
  else if declared < required then throw (.threshold required declared)
  else expect ⟨.checkMultisig, none⟩

def ofKind : Kind → Decoder Unit
  | .p2pk => Pattern.p2pk.decode
  | .p2pkh => Pattern.p2pkh.decode
  | .p2sh => Pattern.p2sh.decode
  | .p2wpkh => Pattern.p2wpkh.decode
  | .p2wsh => Pattern.p2wsh.decode
  | .p2tr => Pattern.p2tr.decode
  | .multisig => multisig
  | .dataCarrier => dataCarrier

end Decoder

end CoinWire.Script
