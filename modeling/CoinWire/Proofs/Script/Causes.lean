import CoinWire.Proofs.Script.Extension
import CoinWire.Proofs.Script.Stops

/-!
What can still be wrong with a script whose kind is known. The template reads the first bytes again and finds
them as they were, and so it never refuses the opcodes by which its kind was told; of its other failures only
a few are left for each kind.
-/

namespace CoinWire.Script

namespace Kind

/-- The opcodes of a template that have not been seen when its kind is told. -/
def laterNames : Kind → List String
  | p2pk => ["OP_CHECKSIG"]
  | p2pkh => ["OP_HASH160", "OP_PUSHBYTES_20", "OP_EQUALVERIFY", "OP_CHECKSIG"]
  | p2sh => ["OP_PUSHBYTES_20", "OP_EQUAL"]
  | multisig => ["OP_CHECKMULTISIG"]
  | p2wpkh | p2wsh | p2tr | dataCarrier => []

def Allows (kind : Kind) (script : Bytes) : Failure → Prop
  | .trailing _ => True
  | .unexpectedEnd _ position _ => kind ∈ [p2wpkh, p2wsh, p2tr] → position = 2
  | .mismatch expected _ => expected ∈ kind.laterNames
  | .pushExpected found => kind = dataCarrier ∧ ∃ b, script[1]? = some b ∧ found = b.toNat
  | .multisigBody _ => kind = multisig
  | .keyCount declared observed => kind = multisig ∧ declared ≠ observed
  | .threshold required declared => kind = multisig ∧ declared < required
  | _ => False

theorem Allows.isDecoding {kind : Kind} {script : Bytes} {e : Failure}
    (h : kind.Allows script e) : e.isDecoding = true := by
  cases e with
  | trailing | unexpectedEnd | mismatch | pushExpected | multisigBody | keyCount | threshold => rfl
  | noByteValue | noMnemonic | unsupported | unrecognized | scriptNotHex | argumentNotHex
    | undecodable | notByte | pushLength | smallInteger | negativeRead | rewind | valuedName
    | unnumbered => exact h.elim

theorem allows_of_isEnd {kind : Kind} {script : Bytes} {e : Failure} (he : e.isEnd = true)
    (hk : kind ∉ [p2wpkh, p2wsh, p2tr]) : kind.Allows script e := by
  cases e with
  | unexpectedEnd => exact fun h => absurd h hk
  | _ => cases he

def Begins : Kind → Bytes → Prop
  | p2pk, script => ∃ rest, script = 65 :: rest
  | p2pkh, script => ∃ rest, script = 0x76 :: rest
  | p2sh, script => ∃ rest, script = 0xa9 :: rest
  | dataCarrier, script => ∃ rest, script = 0x6a :: rest
  | p2wpkh, script => ∃ rest, script = 0x00 :: 20 :: rest
  | p2wsh, script => ∃ rest, script = 0x00 :: 32 :: rest
  | p2tr, script => ∃ rest, script = 0x51 :: 32 :: rest
  | multisig, script => ∃ first rest, (Opcode.ofByte first).number?.isSome ∧ script = first :: rest

theorem begins_of_ofLeading? {first : UInt8} {kind : Kind}
    (h : ofLeading? (.ofByte first) = some kind) (rest : Bytes) : kind.Begins (first :: rest) := by
  have named {k : OpKind} {c : UInt8} (hc : k.byte? = some c)
      (ho : Opcode.ofByte first = ⟨k, none⟩) : first :: rest = c :: rest := by
    rw [(Opcode.ofByte_named_iff hc).1 ho]
  rw [ofLeading?] at h
  split at h
  · next hp =>
    obtain rfl := Option.some.inj h
    obtain ⟨-, -, rfl⟩ := Opcode.ofByte_pushed_iff.1 hp
    exact ⟨rest, rfl⟩
  · split at h
    · next ho =>
      obtain rfl := Option.some.inj h
      exact ⟨rest, named rfl ho⟩
    · split at h
      · next ho =>
        obtain rfl := Option.some.inj h
        exact ⟨rest, named rfl ho⟩
      · split at h
        · next ho =>
          obtain rfl := Option.some.inj h
          exact ⟨rest, named rfl ho⟩
        · cases h

theorem begins_of_ofWitnessProgram? {second : UInt8} {kind : Kind}
    (h : ofWitnessProgram? (.ofByte second) = some kind) (rest : Bytes) :
    kind.Begins (0x00 :: second :: rest) := by
  rw [ofWitnessProgram?] at h
  split at h
  · next hp =>
    obtain rfl := Option.some.inj h
    obtain ⟨-, -, rfl⟩ := Opcode.ofByte_pushed_iff.1 hp
    exact ⟨rest, rfl⟩
  · split at h
    · next hp =>
      obtain rfl := Option.some.inj h
      obtain ⟨-, -, rfl⟩ := Opcode.ofByte_pushed_iff.1 hp
      exact ⟨rest, rfl⟩
    · cases h

end Kind

theorem begins_of_kind {script : Bytes} {k : Kind} (h : kind script = .ok k) : k.Begins script := by
  cases script with
  | nil => cases h
  | cons first rest =>
    simp only [kind, Cursor.kind, Cursor.start] at h
    split at h
    · next hl =>
      obtain rfl := Except.ok.inj h
      exact Kind.begins_of_ofLeading? hl rest
    · split at h
      · next hz =>
        obtain rfl : first = 0x00 := (Opcode.ofByte_named_iff rfl).1 hz
        cases rest with
        | nil => cases h
        | cons second rest =>
          simp only at h
          split at h
          · next hw =>
            obtain rfl := Except.ok.inj h
            exact Kind.begins_of_ofWitnessProgram? hw rest
          · cases h
      · split at h
        · next hn =>
          cases rest with
          | nil => cases h
          | cons second rest =>
            simp only at h
            split at h
            · next hp =>
              obtain rfl := Except.ok.inj h
              obtain rfl : first = 0x51 := (Opcode.ofByte_named_iff rfl).1 hp.1
              obtain ⟨-, -, rfl⟩ := Opcode.ofByte_pushed_iff.1 hp.2
              exact ⟨rest, rfl⟩
            · obtain rfl := Except.ok.inj h
              exact ⟨first, second :: rest, hn, rfl⟩
        · cases h

section Known

variable {op : Opcode} {name : String} {n : Int} {e : Failure} {bytes rest : Bytes}
  {tokens : List String} {c : Cursor} {b : UInt8}

theorem Misses.ne_head (h : Misses op e bytes tokens c) (hm : op.mnemonic = .ok name)
    (hu : bytes ++ c.unread = b :: rest) : Opcode.ofByte b ≠ op := by
  cases h with
  | short hl =>
    obtain ⟨hl, -⟩ := hl
    rw [List.nil_append] at hu
    rw [Cursor.remaining, hu, List.length_cons] at hl
    omega
  | unnamed he => cases he.symm.trans hm
  | other hne _ =>
    obtain ⟨rfl, -⟩ := List.cons.inj hu
    exact hne

theorem Pattern.Fails.behind_opcode {pattern : Pattern}
    (h : Pattern.Fails (.opcode op :: pattern) e bytes tokens c) (hb : Opcode.ofByte b = op)
    (hm : op.mnemonic = .ok name) (hu : bytes ++ c.unread = b :: rest) :
    ∃ v t, pattern.Fails e v t c ∧ bytes = b :: v := by
  cases h with
  | here h =>
    cases h with
    | opcode h => exact absurd hb (h.ne_head hm hu)
  | later hmatch h =>
    obtain ⟨b', name, -, -, rfl, rfl⟩ := hmatch
    obtain ⟨rfl, -⟩ := List.cons.inj hu
    exact ⟨_, _, h, rfl⟩

theorem Step.Fails.behind_push (h : (Step.push n).Fails e bytes tokens c)
    (hb : Opcode.ofByte b = ⟨.push, some n⟩) (hu : bytes ++ c.unread = b :: rest) :
    bytes = [b] ∧ c.Lacks n e := by
  cases h with
  | length hn =>
    obtain ⟨h1, h75, -⟩ := Opcode.ofByte_push_iff.1 hb
    exact absurd ⟨h1, h75⟩ hn
  | pushOpcode hn h => exact absurd hb (h.ne_head (Opcode.mnemonic_pushed hb) hu)
  | data hb' hl =>
    obtain ⟨rfl, -⟩ := List.cons.inj hu
    exact ⟨rfl, hl⟩

theorem Cursor.Lacks.isEnd (h : c.Lacks n e) : e.isEnd = true := by
  obtain ⟨-, rfl⟩ := h
  rfl

def Step.label : Step → String
  | .opcode op => op.label
  | .push n => "OP_PUSHBYTES_" ++ toString n

/-- What the step asks for has a name. -/
def Step.Sound : Step → Prop
  | .opcode op => op.mnemonic.isOk = true
  | .push n => 1 ≤ n ∧ n ≤ Opcode.longestPush

instance : DecidablePred Step.Sound := fun step => by
  cases step <;> unfold Step.Sound <;> infer_instance

theorem Misses.cause (h : Misses op e bytes tokens c) (hm : op.mnemonic = .ok name) :
    e.isEnd = true ∨ ∃ found, e = .mismatch name found := by
  cases h with
  | short hl => exact .inl hl.isEnd
  | unnamed he => cases he.symm.trans hm
  | other hne hname =>
    obtain rfl := Except.ok.inj (hm.symm.trans hname)
    exact .inr ⟨_, rfl⟩

theorem Step.Fails.cause {step : Step} (h : step.Fails e bytes tokens c) (hs : step.Sound) :
    e.isEnd = true ∨ ∃ found, e = .mismatch step.label found := by
  cases h with
  | @opcode op _ _ _ _ h =>
    cases hm : op.mnemonic with
    | error e => simp [Sound, hm, Except.isOk, Except.toBool] at hs
    | ok name =>
      have hname : (Step.opcode op).label = name := by
        rw [label, Opcode.label, hm]
      rw [hname]
      exact h.cause hm
  | length hn => exact absurd hs hn
  | pushOpcode hn h => exact h.cause (Opcode.mnemonic_push (Opcode.writable_direct hn.1 hn.2))
  | data hb hl => exact .inl hl.isEnd

theorem Pattern.Fails.cause {pattern : Pattern} (h : pattern.Fails e bytes tokens c)
    (hp : ∀ step ∈ pattern, step.Sound) :
    e.isEnd = true ∨ ∃ step ∈ pattern, ∃ found, e = .mismatch step.label found := by
  induction h with
  | here h =>
    have hstep := hp _ (List.mem_cons_self ..)
    exact (h.cause hstep).imp_right fun hm => ⟨_, List.mem_cons_self .., hm⟩
  | later hu h ih =>
    have hrest := ih fun step hs => hp step (List.mem_cons_of_mem _ hs)
    refine hrest.imp_right fun hm => ?_
    obtain ⟨step, hs, hm⟩ := hm
    exact ⟨step, List.mem_cons_of_mem _ hs, hm⟩

/-- The steps behind those that told the kind fail as the kind allows. -/
theorem Pattern.Fails.allowed {pattern : Pattern} (h : pattern.Fails e bytes tokens c)
    (hp : ∀ step ∈ pattern, step.Sound) {kind : Kind} (hk : kind ∉ [.p2wpkh, .p2wsh, .p2tr])
    (hn : pattern.map Step.label ⊆ kind.laterNames) (script : Bytes) :
    kind.Allows script e := by
  obtain he | ⟨step, hs, found, rfl⟩ := h.cause hp
  · exact Kind.allows_of_isEnd he hk
  · exact hn (List.mem_map_of_mem hs)

/-- A witness program can only be too short. -/
theorem Pattern.Fails.program {kind : OpKind} {first : UInt8} (hc : kind.byte? = some first)
    (h : Pattern.Fails [.opcode ⟨kind, none⟩, .push n] e bytes tokens c)
    (hb : Opcode.ofByte b = ⟨.push, some n⟩) (hu : bytes ++ c.unread = first :: b :: rest) :
    bytes = [first, b] ∧ c.Lacks n e := by
  obtain ⟨name, hm⟩ := Opcode.exists_mnemonic_named hc
  obtain ⟨v, t, hpush, rfl⟩ := h.behind_opcode (Opcode.ofByte_named hc) hm hu
  obtain ⟨-, hv⟩ := List.cons.inj hu
  cases hpush with
  | here hstep =>
    obtain ⟨rfl, hl⟩ := hstep.behind_push hb hv
    exact ⟨rfl, hl⟩
  | later hm hrest => cases hrest

theorem CarrierFails.allowed (h : CarrierFails e bytes tokens c)
    (hu : bytes ++ c.unread = 0x6a :: rest) : Kind.dataCarrier.Allows (0x6a :: rest) e := by
  cases h with
  | head h => exact absurd (Opcode.ofByte_named rfl) (h.ne_head rfl hu)
  | short hl => exact Kind.allows_of_isEnd hl.isEnd (by decide)
  | @noPush found _ hne =>
    rw [← hu]
    exact ⟨rfl, found, rfl, rfl⟩
  | data hb hl => exact Kind.allows_of_isEnd hl.isEnd (by decide)

theorem MultisigFails.allowed {first : UInt8} (h : MultisigFails e bytes tokens c)
    (hn : (Opcode.ofByte first).number?.isSome) (hu : bytes ++ c.unread = first :: rest)
    (script : Bytes) : Kind.multisig.Allows script e := by
  cases h with
  | start hl => exact Kind.allows_of_isEnd hl.isEnd (by decide)
  | noThreshold hnone =>
    obtain ⟨rfl, -⟩ := List.cons.inj hu
    rw [hnone] at hn
    cases hn
  | keys hr hl h =>
    cases h with
    | short hl => exact Kind.allows_of_isEnd hl.isEnd (by decide)
    | key hl => exact Kind.allows_of_isEnd hl.isEnd (by decide)
    | other hb hn => exact rfl
  | counted hr hl hd h =>
    cases h with
    | count hne => exact ⟨rfl, fun h => hne h.symm⟩
    | threshold heq hlt => exact ⟨rfl, hlt⟩
    | last heq hle h =>
      obtain he | ⟨found, rfl⟩ := h.cause rfl
      · exact Kind.allows_of_isEnd he (by decide)
      · exact List.mem_singleton.2 rfl

end Known

namespace Decoder

theorem allows_of_ofKind {script : Bytes} {k : Kind} {e : Failure} {q : Progress}
    (hk : k.Begins script) (h : ofKind k (.start script) = .error e q) : k.Allows script e := by
  obtain ⟨bytes, tokens, hf, hm, -⟩ := (fails_ofKind k _ _ _).1 h
  have hu : bytes ++ q.cursor.unread = script := hm.1.symm
  have hposition : q.cursor.position = bytes.length := hm.position.trans (Nat.zero_add _)
  have hprogram {n : Int} (hl : bytes.length = 2) (he : q.cursor.Lacks n e) : k.Allows script e := by
    obtain ⟨-, rfl⟩ := he
    intro _
    rw [hposition, hl]
    rfl
  cases k with
  | p2pk =>
    obtain ⟨rest, rfl⟩ := hk
    cases hf with
    | here hf =>
      obtain ⟨-, hl⟩ := hf.behind_push (b := 65) (by decide) hu
      exact Kind.allows_of_isEnd hl.isEnd (by decide)
    | later hm hf => exact hf.allowed (by decide) (by decide) (by decide) _
  | p2pkh =>
    obtain ⟨rest, rfl⟩ := hk
    obtain ⟨v, t, hf, -⟩ := hf.behind_opcode (Opcode.ofByte_named rfl) rfl hu
    exact hf.allowed (by decide) (by decide) (by decide) _
  | p2sh =>
    obtain ⟨rest, rfl⟩ := hk
    obtain ⟨v, t, hf, -⟩ := hf.behind_opcode (Opcode.ofByte_named rfl) rfl hu
    exact hf.allowed (by decide) (by decide) (by decide) _
  | p2wpkh | p2wsh | p2tr =>
    obtain ⟨rest, rfl⟩ := hk
    obtain ⟨rfl, hl⟩ := Pattern.Fails.program rfl hf (by decide) hu
    exact hprogram rfl hl
  | multisig =>
    obtain ⟨first, rest, hn, rfl⟩ := hk
    exact MultisigFails.allowed hf hn hu _
  | dataCarrier =>
    obtain ⟨rest, rfl⟩ := hk
    exact CarrierFails.allowed hf hu

end Decoder

/-- A kind cannot be told where a script ends too soon, or where its opcodes begin no kind. -/
theorem kind_error_cases {script : Bytes} {e : Failure} (h : kind script = .error e) :
    (∃ needed, e = (Cursor.start script).short needed) ∨
      (∃ found, e = .mismatch "OP_PUSHBYTES_20 or OP_PUSHBYTES_32 after OP_0" found) ∨
      ∃ found, e = .unrecognized found := by
  cases script with
  | nil => exact .inl ⟨1, (Except.error.inj h).symm⟩
  | cons first rest =>
    simp only [kind, Cursor.kind, Cursor.start] at h
    split at h
    · cases h
    · split at h
      · cases rest with
        | nil => exact .inl ⟨2, (Except.error.inj h).symm⟩
        | cons second rest =>
          simp only at h
          split at h
          · cases h
          · exact .inr (.inl ⟨_, (Except.error.inj h).symm⟩)
      · split at h
        · cases rest with
          | nil => exact .inl ⟨2, (Except.error.inj h).symm⟩
          | cons second rest =>
            simp only at h
            split at h
            · cases h
            · cases h
        · exact .inr (.inr ⟨_, (Except.error.inj h).symm⟩)

theorem isDecoding_of_kind {script : Bytes} {e : Failure} (h : kind script = .error e) :
    e.isDecoding = true := by
  obtain ⟨needed, rfl⟩ | ⟨found, rfl⟩ | ⟨found, rfl⟩ := kind_error_cases h
  · rfl
  · rfl
  · rfl

section Outcome

variable {settings : Settings} {script : Bytes} {e : Failure}

theorem asm_of_kind_error (h : kind script = .error e) :
    (asm settings script).value = .error e := by
  apply asm_of_decode_error
  rw [decode, h]
  rfl

theorem allows_of_asm {k : Kind} (hk : kind script = .ok k)
    (h : (asm settings script).value = .error e) : k.Allows script e := by
  cases hd : (decode script).value with
  | ok p =>
    rw [asm_of_decode hd, accept] at h
    split at h
    · cases h
    · obtain rfl := Except.error.inj h
      trivial
  | error e' =>
    obtain rfl := Except.error.inj ((asm_of_decode_error hd).symm.trans h)
    obtain hk' | ⟨k', q, hk', hq⟩ := decode_eq_error_iff.1 hd
    · cases hk.symm.trans hk'
    · obtain rfl := Except.ok.inj (hk.symm.trans hk')
      exact Decoder.allows_of_ofKind (begins_of_kind hk) hq

theorem isDecoding_of_asm (h : (asm settings script).value = .error e) : e.isDecoding = true := by
  cases hk : kind script with
  | error e' =>
    obtain rfl := Except.error.inj ((asm_of_kind_error hk).symm.trans h)
    exact isDecoding_of_kind hk
  | ok k => exact (allows_of_asm hk h).isDecoding

/-- Decoding fails only with failures of scripts: with that of telling the kind, or else with one that the
kind allows. -/
theorem asm_error_causes (settings : Settings) (script : Bytes) :
    (∀ e, (asm settings script).value = .error e → e.isDecoding = true) ∧
    (∀ e, kind script = .error e → (asm settings script).value = .error e) ∧
    ∀ k e, kind script = .ok k → (asm settings script).value = .error e → k.Allows script e :=
  ⟨fun _ => isDecoding_of_asm, fun _ => asm_of_kind_error, fun _ _ => allows_of_asm⟩

example : (asm {} [0x76, 0xa9, 0x01]).value = .error (.mismatch "OP_PUSHBYTES_20" 0x01) := by
  rfl

end Outcome

end CoinWire.Script
