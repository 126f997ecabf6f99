import CoinWire.Script.Kind

/-!
The standard scripts themselves: one constructor a kind, holding the data that scripts of the kind differ
in. `bytes` and `tokens` write such a script down, as a script and as assembly, without reading anything.
-/

namespace CoinWire.Script

inductive Standard
  | p2pk (key : Bytes)
  | p2pkh (hash : Bytes)
  | p2sh (hash : Bytes)
  | p2wpkh (hash : Bytes)
  | p2wsh (hash : Bytes)
  | p2tr (key : Bytes)
  | multisig (required : Nat) (keys : List Bytes)
  | dataCarrier (data : Bytes)
  deriving DecidableEq, Repr

namespace Standard

def kind : Standard → Kind
  | p2pk _ => .p2pk
  | p2pkh _ => .p2pkh
  | p2sh _ => .p2sh
  | p2wpkh _ => .p2wpkh
  | p2wsh _ => .p2wsh
  | p2tr _ => .p2tr
  | multisig .. => .multisig
  | dataCarrier _ => .dataCarrier

def Valid : Standard → Prop
  | p2pk key => key.length = 65
  | p2pkh hash | p2sh hash | p2wpkh hash => hash.length = 20
  | p2wsh data | p2tr data => data.length = 32
  | multisig required keys =>
    1 ≤ required ∧ required ≤ keys.length ∧ keys.length ≤ 16 ∧ ∀ key ∈ keys, key.length = 65
  | dataCarrier data => 1 ≤ data.length ∧ data.length ≤ 75

instance : DecidablePred Valid := fun s => by
  cases s <;> unfold Valid <;> infer_instance

def pushed (data : Bytes) : Bytes := UInt8.ofNat data.length :: data

def number (n : Nat) : UInt8 := UInt8.ofNat (0x50 + n)

def bytes : Standard → Bytes
  | p2pk key => pushed key ++ [0xac]
  | p2pkh hash => 0x76 :: 0xa9 :: (pushed hash ++ [0x88, 0xac])
  | p2sh hash => 0xa9 :: (pushed hash ++ [0x87])
  | p2wpkh hash => 0x00 :: pushed hash
  | p2wsh hash => 0x00 :: pushed hash
  | p2tr key => 0x51 :: pushed key
  | multisig required keys =>
    number required :: (keys.flatMap pushed ++ [number keys.length, 0xae])
  | dataCarrier data => 0x6a :: pushed data

def pushTokens (data : Bytes) : List String :=
  ["OP_PUSHBYTES_" ++ toString data.length, Hex.encode data]

def numberToken (n : Nat) : String := "OP_" ++ toString n

def tokens : Standard → List String
  | p2pk key => pushTokens key ++ ["OP_CHECKSIG"]
  | p2pkh hash => "OP_DUP" :: "OP_HASH160" :: (pushTokens hash ++ ["OP_EQUALVERIFY", "OP_CHECKSIG"])
  | p2sh hash => "OP_HASH160" :: (pushTokens hash ++ ["OP_EQUAL"])
  | p2wpkh hash => "OP_0" :: pushTokens hash
  | p2wsh hash => "OP_0" :: pushTokens hash
  | p2tr key => "OP_1" :: pushTokens key
  | multisig required keys =>
    numberToken required ::
      (keys.flatMap pushTokens ++ [numberToken keys.length, "OP_CHECKMULTISIG"])
  | dataCarrier data => "OP_RETURN" :: pushTokens data

@[simp] theorem length_pushed (data : Bytes) : (pushed data).length = data.length + 1 := rfl

theorem tokens_ne_nil (s : Standard) : s.tokens ≠ [] := by
  cases s <;> simp [tokens, pushTokens]

end Standard

end CoinWire.Script
