import CoinWire.Proofs.Script.Assembly
import CoinWire.Proofs.Script.Stops

/-!
Tokens as an account of the bytes consumed, also where a decoder fails. Each template stops either in front of
a byte, with a token for everything before it, or behind a single byte that it read and refused. In both cases
the tokens can be assembled into the bytes up to that place.
-/

namespace CoinWire.Script

variable [DigitLimit]

/-- How many of the bytes consumed have no token when a template fails; other failures are not of templates.
Where an expected opcode has a number too long to be written, its byte has been read. -/
def Failure.unspelled? : Failure → Option Nat
  | unexpectedEnd .. | keyCount .. | threshold .. | pushLength _ | smallInteger _ | negativeRead _ |
      rewind .. => some 0
  | mismatch .. | multisigBody _ | pushExpected _ | unsupported .. | noMnemonic | noByteValue =>
    some 1
  | notByte n => some (if Decimal.Writable n then 0 else 1)
  | unrecognized _ | trailing _ | scriptNotHex _ | argumentNotHex _ | undecodable _ | valuedName |
      unnumbered => none

/-- From `p` to `q` the tokens spell the bytes consumed, all but the last `owed` of them. -/
def Progress.Accounts (p q : Progress) (owed : Nat) : Prop :=
  ∃ found stop, q.asm.tokens = p.asm.tokens ++ found ∧
    assembled? found = some (p.cursor.data.extract p.cursor.position stop) ∧
    p.cursor.position ≤ stop ∧ q.cursor.position = stop + owed ∧ q.cursor.data = p.cursor.data

def Decoder.Accounted {α : Type} (decoder : Decoder α) (p : Progress) : Prop :=
  match decoder p with
  | .ok _ q => p.Accounts q 0
  | .error e q => ∃ owed, e.unspelled? = some owed ∧ p.Accounts q owed

theorem Progress.Advances.accounts {p q : Progress} {spelled owed : Bytes} {tokens : List String}
    (h : p.Advances (spelled ++ owed) tokens q) (ha : assembled? tokens = some spelled) :
    p.Accounts q owed.length := by
  obtain ⟨hm, ht⟩ := h
  refine ⟨tokens, p.cursor.position + spelled.length, ht, ?_, Nat.le_add_right .., ?_, hm.data_eq⟩
  · rw [List.extract_eq_take_drop, ← Cursor.unread_eq_drop, hm.1, Nat.add_sub_cancel_left,
      List.append_assoc, List.take_left' rfl]
    exact ha
  · rw [hm.position, List.length_append, Nat.add_assoc]

/-- A failure behind some bytes, of which the tokens leave out as many as it says. -/
def Owes (e : Failure) (bytes : Bytes) (tokens : List String) : Prop :=
  ∃ spelled owed, bytes = spelled ++ owed ∧ assembled? tokens = some spelled ∧
    e.unspelled? = some owed.length

section Owes

variable {e : Failure} {bytes u v : Bytes} {tokens s t : List String} {c : Cursor}

theorem owes_nothing (he : e.unspelled? = some 0) (ha : assembled? tokens = some bytes) :
    Owes e bytes tokens :=
  ⟨bytes, [], (List.append_nil bytes).symm, ha, he⟩

theorem owes_byte {b : UInt8} (he : e.unspelled? = some 1) : Owes e [b] [] :=
  ⟨[], [b], rfl, rfl, he⟩

theorem Owes.behind (h : Owes e v t) (hu : assembled? s = some u) : Owes e (u ++ v) (s ++ t) := by
  obtain ⟨spelled, owed, rfl, ha, he⟩ := h
  exact ⟨u ++ spelled, owed, (List.append_assoc ..).symm, assembled?_append hu ha, he⟩

theorem Cursor.Lacks.unspelled {needed : Int} (h : c.Lacks needed e) : e.unspelled? = some 0 := by
  obtain ⟨-, rfl⟩ := h
  rfl

theorem Misses.owes {op : Opcode} (h : Misses op e bytes tokens c) : Owes e bytes tokens := by
  cases h with
  | short hl => exact owes_nothing hl.unspelled rfl
  | unnamed hm =>
    -- the mnemonic is asked for behind the byte, whatever it is then missing for
    obtain ⟨-, rfl⟩ | ⟨n, hn, rfl⟩ := Opcode.mnemonic_eq_error_iff.1 hm
    · exact owes_byte rfl
    · exact owes_byte (congrArg some (if_neg (Opcode.overlong?_eq_some hn).2))
  | other hb hm => exact owes_byte rfl

theorem assembled?_pushOpcode {b : UInt8} {n : Int} (h : Opcode.ofByte b = ⟨.push, some n⟩) :
    assembled? ["OP_PUSHBYTES_" ++ toString n] = some [b] := by
  apply assembled?_mnemonic
  rw [h]
  exact Opcode.mnemonic_pushed h

theorem Step.Fails.owes {step : Step} (h : step.Fails e bytes tokens c) : Owes e bytes tokens := by
  cases h with
  | opcode h => exact h.owes
  | length hn => exact owes_nothing rfl rfl
  | pushOpcode hn h => exact h.owes
  | data hb hl => exact owes_nothing hl.unspelled (assembled?_pushOpcode hb)

theorem Pattern.Fails.owes {pattern : Pattern} (h : pattern.Fails e bytes tokens c) :
    Owes e bytes tokens := by
  induction h with
  | here h => exact h.owes
  | later hu _ ih => exact ih.behind hu.assembled?

theorem CarrierFails.owes (h : CarrierFails e bytes tokens c) : Owes e bytes tokens := by
  have hret : assembled? ["OP_RETURN"] = some [0x6a] := assembled?_mnemonic rfl
  cases h with
  | head h => exact h.owes
  | short hl => exact owes_nothing hl.unspelled hret
  | noPush hb => exact (owes_byte rfl).behind hret
  | data hb hl =>
    exact (owes_nothing hl.unspelled (assembled?_pushOpcode hb)).behind hret

theorem KeyFails.owes (h : KeyFails e bytes tokens c) : Owes e bytes tokens := by
  cases h with
  | short hl => exact owes_nothing hl.unspelled rfl
  | key hl =>
    have hkey : Opcode.ofByte 65 = ⟨.push, some 65⟩ := by decide
    exact owes_nothing hl.unspelled (assembled?_pushOpcode hkey)
  | other hb hn => exact owes_byte rfl

theorem CountFails.owes {required observed declared : Int}
    (h : CountFails required observed declared e bytes tokens c) : Owes e bytes tokens := by
  cases h with
  | count hn => exact owes_nothing rfl rfl
  | threshold hn hr => exact owes_nothing rfl rfl
  | last hn hr h => exact h.owes

theorem MultisigFails.owes (h : MultisigFails e bytes tokens c) : Owes e bytes tokens := by
  cases h with
  | start hl => exact owes_nothing hl.unspelled rfl
  | noThreshold hn => exact owes_byte rfl
  | keys hr hl h =>
    exact (h.owes.behind (assembled?_keys hl)).behind (assembled?_numberToken hr.1 hr.2)
  | counted hr hl hd h =>
    have hcount := h.owes.behind (assembled?_numberToken hd.1 hd.2)
    exact (hcount.behind (assembled?_keys hl)).behind (assembled?_numberToken hr.1 hr.2)

theorem Kind.Fails.owes {kind : Kind} (h : kind.Fails e bytes tokens c) : Owes e bytes tokens := by
  cases kind with
  | p2pk | p2pkh | p2sh | p2wpkh | p2wsh | p2tr => exact Pattern.Fails.owes h
  | multisig => exact MultisigFails.owes h
  | dataCarrier => exact CarrierFails.owes h

end Owes

namespace Decoder

variable {α : Type} {decoder : Decoder α}

theorem Spells.accounted (hs : Spells decoder)
    {failed : Failure → Bytes → List String → Cursor → Prop} (hf : Fails decoder failed)
    (ho : ∀ e bytes tokens c, failed e bytes tokens c → Owes e bytes tokens) (p : Progress) :
    Accounted decoder p := by
  unfold Accounted
  cases h : decoder p with
  | ok a q =>
    obtain ⟨bytes, tokens, hq, ha⟩ := hs p a q h
    rw [← List.append_nil bytes] at hq
    exact hq.accounts ha
  | error e q =>
    obtain ⟨bytes, tokens, hfail, hq⟩ := (hf p e q).1 h
    obtain ⟨spelled, owed, rfl, ha, he⟩ := ho _ _ _ _ hfail
    exact ⟨owed.length, he, hq.accounts ha⟩

end Decoder

/-- On success and on every failure the tokens account for the bytes consumed, for the template of each kind
and for every pattern whatever, under any limit on digits or none. -/
theorem templates_accounted (p : Progress) :
    (∀ kind, (Decoder.ofKind kind).Accounted p) ∧ ∀ pattern : Pattern, pattern.decode.Accounted p :=
  ⟨fun kind => (Decoder.spells_ofKind kind).accounted (Decoder.fails_ofKind kind)
      (fun _ _ _ _ => Kind.Fails.owes) p,
    fun pattern => (Decoder.spells_pattern pattern).accounted pattern.fails_decode
      (fun _ _ _ _ => Pattern.Fails.owes) p⟩

end CoinWire.Script
