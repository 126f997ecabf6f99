import CoinWire.Proofs.Script.Failing

/-!
Where each template comes to a stop. The first step of a pattern that does not match decides how the pattern
fails. A data carrier fails at its name, its push or its data, and a multisig script at its threshold, in the
list of its keys, or where their number is checked. There is one cause for each such place, and no other.
-/

namespace CoinWire.Script

open Decoder (Fails fails_opcode fails_emit fails_pure fails_throw fails_demand fails_payload
  takes_opcode takes_emit takes_demand takes_expect)

variable [DigitLimit]

inductive Step.Fails : Step → Failure → Bytes → List String → Cursor → Prop
  | opcode {op : Opcode} {e : Failure} {bytes : Bytes} {tokens : List String} {c : Cursor}
      (h : Misses op e bytes tokens c) : Fails (.opcode op) e bytes tokens c
  | length {n : Int} {c : Cursor} (h : ¬ (1 ≤ n ∧ n ≤ Opcode.longestPush)) :
      Fails (.push n) (.pushLength n) [] [] c
  | pushOpcode {n : Int} {e : Failure} {bytes : Bytes} {tokens : List String} {c : Cursor}
      (hn : 1 ≤ n ∧ n ≤ Opcode.longestPush) (h : Misses ⟨.push, some n⟩ e bytes tokens c) :
      Fails (.push n) e bytes tokens c
  | data {n : Int} {b : UInt8} {e : Failure} {c : Cursor}
      (hb : Opcode.ofByte b = ⟨.push, some n⟩) (h : c.Lacks n e) :
      Fails (.push n) e [b] ["OP_PUSHBYTES_" ++ toString n] c

theorem Step.fails_decode (step : Step) : Decoder.Fails step.decode step.Fails := by
  cases step with
  | opcode op =>
    refine (Decoder.fails_expect op).congr fun e bytes tokens c => ⟨.opcode, fun h => ?_⟩
    cases h with
    | opcode h => exact h
  | push n =>
    refine ((fails_demand (Opcode.push n)).bindTaken (takes_demand _) fun op _ _ hp =>
      (Decoder.fails_expect op).bind (takes_expect op) fun _ =>
        fails_payload (Opcode.writable_of_push hp.1)).discard.congr fun e bytes tokens c => ?_
    constructor
    · intro h
      obtain ⟨hp, rfl, rfl⟩ | ⟨op, _, _, _, _, ⟨hp, rfl, rfl⟩, h, rfl, rfl⟩ := h
      · rw [Opcode.push] at hp
        split at hp
        · cases hp
        · next hn =>
          obtain rfl := Except.error.inj hp
          exact .length hn
      · obtain ⟨h1, h75, rfl⟩ := Opcode.push_eq_ok_iff.1 hp
        obtain h | ⟨_, _, _, _, _, ⟨b, name, hb, hm, rfl, rfl⟩, ⟨hl, rfl, rfl⟩, rfl, rfl⟩ := h
        · exact .pushOpcode ⟨h1, h75⟩ h
        · obtain rfl := Except.ok.inj (hm.symm.trans (Opcode.mnemonic_pushed hb))
          obtain ⟨hneg, -⟩ | ⟨-, hl⟩ := hl
          · omega
          · exact .data hb hl
    · intro h
      cases h with
      | length hn =>
        refine .inl ⟨?_, rfl, rfl⟩
        rw [Opcode.push, if_neg hn]
      | pushOpcode hn h =>
        exact .inr ⟨_, [], [], _, _, ⟨Opcode.push_eq_ok_iff.2 ⟨hn.1, hn.2, rfl⟩, rfl, rfl⟩,
          .inl h, rfl, rfl⟩
      | @data n b e c hb h =>
        obtain ⟨h1, h75, -⟩ := Opcode.ofByte_push_iff.1 hb
        exact .inr ⟨_, [], [], _, _, ⟨Opcode.push_eq_ok_iff.2 ⟨h1, h75, rfl⟩, rfl, rfl⟩,
          .inr ⟨(), [b], _, [], [], ⟨b, _, hb, Opcode.mnemonic_pushed hb, rfl, rfl⟩,
            ⟨.inr ⟨by omega, h⟩, rfl, rfl⟩, rfl, rfl⟩, rfl, rfl⟩

/-- The first step that does not match decides how a pattern fails. -/
inductive Pattern.Fails : Pattern → Failure → Bytes → List String → Cursor → Prop
  | here {step : Step} {rest : Pattern} {e : Failure} {bytes : Bytes} {tokens : List String}
      {c : Cursor} (h : step.Fails e bytes tokens c) : Fails (step :: rest) e bytes tokens c
  | later {step : Step} {rest : Pattern} {e : Failure} {u v : Bytes} {s t : List String}
      {c : Cursor} (hu : step.Matches u s) (h : Fails rest e v t c) :
      Fails (step :: rest) e (u ++ v) (s ++ t) c

theorem Pattern.fails_decode (pattern : Pattern) :
    Decoder.Fails pattern.decode pattern.Fails := by
  induction pattern with
  | nil => exact (fails_pure ()).congr fun _ _ _ _ => ⟨False.elim, nofun⟩
  | cons step rest ih =>
    refine (step.fails_decode.bind step.takes_decode fun _ => ih).congr
      fun e bytes tokens c => ?_
    constructor
    · intro h
      obtain h | ⟨_, u, s, v, t, hu, hv, rfl, rfl⟩ := h
      · exact .here h
      · exact .later hu hv
    · intro h
      cases h with
      | here h => exact .inl h
      | later hu hv => exact .inr ⟨(), _, _, _, _, hu, hv, rfl, rfl⟩

inductive CarrierFails : Failure → Bytes → List String → Cursor → Prop
  | head {e : Failure} {bytes : Bytes} {tokens : List String} {c : Cursor}
      (h : Misses ⟨.ret, none⟩ e bytes tokens c) : CarrierFails e bytes tokens c
  | short {e : Failure} {c : Cursor} (h : c.Lacks 1 e) : CarrierFails e [0x6a] ["OP_RETURN"] c
  | noPush {b : UInt8} {c : Cursor} (h : ∀ n, Opcode.ofByte b ≠ ⟨.push, some n⟩) :
      CarrierFails (.pushExpected b.toNat) [0x6a, b] ["OP_RETURN"] c
  | data {b : UInt8} {n : Int} {e : Failure} {c : Cursor}
      (hb : Opcode.ofByte b = ⟨.push, some n⟩) (h : c.Lacks n e) :
      CarrierFails e [0x6a, b] ["OP_RETURN", "OP_PUSHBYTES_" ++ toString n] c

namespace Decoder

theorem fails_pushed {b : UInt8} {op : Opcode} (hb : op = .ofByte b) (e : Failure) :
    Fails (match op.kind, op.value with
      | .push, some length => do
        emit op
        discard (payload length)
      | _, _ => throw e)
      fun e' bytes tokens c => bytes = [] ∧
        (((∀ n, op ≠ ⟨.push, some n⟩) ∧ e' = e ∧ tokens = []) ∨
        ∃ n, op = ⟨.push, some n⟩ ∧ (n < 0 ∧ e' = .negativeRead n ∨ 0 ≤ n ∧ c.Lacks n e') ∧
          tokens = ["OP_PUSHBYTES_" ++ toString n]) := by
  obtain ⟨kind, value⟩ := op
  cases kind with
  | push =>
    cases value with
    | none => exact (fails_throw e).congr fun _ _ _ _ => by simp [and_left_comm]
    | some n =>
      have hw : Decimal.Writable n := Opcode.writable_ofByte (congrArg Opcode.value hb.symm)
      have hname := Opcode.mnemonic_push hw
      refine ((fails_emit ⟨.push, some n⟩).bind (takes_emit _) fun _ =>
        (fails_payload hw).discard).congr fun e' bytes tokens c => ?_
      constructor
      · intro h
        obtain ⟨he, -⟩ | ⟨_, _, _, _, _, ⟨name, hm, rfl, rfl⟩, ⟨hl, rfl, rfl⟩, rfl, rfl⟩ := h
        · cases he.symm.trans hname
        · obtain rfl := Except.ok.inj (hm.symm.trans hname)
          exact ⟨rfl, .inr ⟨n, rfl, hl, rfl⟩⟩
      · intro h
        obtain ⟨rfl, ⟨hne, -⟩ | ⟨m, hop, hl, rfl⟩⟩ := h
        · exact absurd rfl (hne n)
        · obtain rfl := Option.some.inj (Opcode.mk.inj hop).2
          exact .inr ⟨(), [], _, [], [], ⟨_, hname, rfl, rfl⟩, ⟨hl, rfl, rfl⟩, rfl, rfl⟩
  | zero | one | small | dup | hash160 | equal | equalVerify | checkSig | checkMultisig | ret
    | unsupported => exact (fails_throw e).congr fun _ _ _ _ => by simp [and_left_comm]

theorem fails_dataCarrier : Fails dataCarrier CarrierFails := by
  have hret : Takes (expect ⟨.ret, none⟩) fun _ bytes tokens =>
      bytes = [0x6a] ∧ tokens = ["OP_RETURN"] :=
    takes_named rfl rfl
  refine ((fails_expect ⟨.ret, none⟩).bind hret fun _ =>
    fails_opcode.bindTaken takes_opcode fun r _ _ hr =>
      fails_pushed hr.1 (.pushExpected r.1.toNat)).congr fun e bytes tokens c => ?_
  constructor
  · intro h
    obtain h | ⟨_, _, _, _, _, ⟨rfl, rfl⟩, h, rfl, rfl⟩ := h
    · exact .head h
    · obtain ⟨hs, rfl, rfl⟩ | ⟨r, _, _, _, _, ⟨hr, rfl, rfl⟩, ⟨rfl, h⟩, rfl, rfl⟩ := h
      · exact .short hs
      · obtain ⟨hne, rfl, rfl⟩ | ⟨n, hop, hl, rfl⟩ := h
        · rw [hr] at hne
          exact .noPush hne
        · rw [hr] at hop
          obtain ⟨h1, -⟩ := Opcode.ofByte_push_iff.1 hop
          obtain ⟨hneg, -⟩ | ⟨-, hl⟩ := hl
          · omega
          · exact .data hop hl
  · intro h
    cases h with
    | head h => exact .inl h
    | short hs => exact .inr ⟨(), _, _, [], [], ⟨rfl, rfl⟩, .inl ⟨hs, rfl, rfl⟩, rfl, rfl⟩
    | @noPush b c hne =>
      exact .inr ⟨(), _, _, _, _, ⟨rfl, rfl⟩, .inr ⟨(b, .ofByte b), [b], [], [], [],
        ⟨rfl, rfl, rfl⟩, ⟨rfl, .inl ⟨hne, rfl, rfl⟩⟩, rfl, rfl⟩, rfl, rfl⟩
    | @data b n e c hb hl =>
      obtain ⟨h1, -⟩ := Opcode.ofByte_push_iff.1 hb
      exact .inr ⟨(), _, _, _, _, ⟨rfl, rfl⟩, .inr ⟨(b, .ofByte b), [b], [], [], _,
        ⟨rfl, rfl, rfl⟩, ⟨rfl, .inr ⟨n, hb, .inr ⟨by omega, hl⟩, rfl⟩⟩, rfl, rfl⟩, rfl, rfl⟩

end Decoder

/-- How it fails where a key or the number of keys must stand. -/
inductive KeyFails : Failure → Bytes → List String → Cursor → Prop
  | short {e : Failure} {c : Cursor} (h : c.Lacks 1 e) : KeyFails e [] [] c
  | key {e : Failure} {c : Cursor} (h : c.Lacks 65 e) : KeyFails e [65] ["OP_PUSHBYTES_65"] c
  | other {b : UInt8} {c : Cursor} (hb : b ≠ 65) (hn : (Opcode.ofByte b).number? = none) :
      KeyFails (.multisigBody b.toNat) [b] [] c

/-- How a multisig script fails once its keys are read: as many as `observed`, while `declared` are
announced and `required` have to sign. -/
inductive CountFails (required observed declared : Int) :
    Failure → Bytes → List String → Cursor → Prop
  | count {c : Cursor} (h : observed ≠ declared) :
      CountFails required observed declared (.keyCount declared observed) [] [] c
  | threshold {c : Cursor} (h : observed = declared) (hr : declared < required) :
      CountFails required observed declared (.threshold required declared) [] [] c
  | last {e : Failure} {bytes : Bytes} {tokens : List String} {c : Cursor} (h : observed = declared)
      (hr : required ≤ declared) (hl : Misses ⟨.checkMultisig, none⟩ e bytes tokens c) :
      CountFails required observed declared e bytes tokens c

inductive MultisigFails : Failure → Bytes → List String → Cursor → Prop
  | start {e : Failure} {c : Cursor} (h : c.Lacks 1 e) : MultisigFails e [] [] c
  | noThreshold {b : UInt8} {c : Cursor} (h : (Opcode.ofByte b).number? = none) :
      MultisigFails (.mismatch "OP_1..OP_16" b.toNat) [b] [] c
  | keys {required : Nat} {found : List Bytes} {e : Failure} {v : Bytes} {t : List String}
      {c : Cursor} (hr : 1 ≤ required ∧ required ≤ 16) (hl : ∀ key ∈ found, key.length = 65)
      (h : KeyFails e v t c) : MultisigFails e
        (Standard.number required :: (found.flatMap Standard.pushed ++ v))
        (Standard.numberToken required :: (found.flatMap Standard.pushTokens ++ t)) c
  | counted {required declared : Nat} {found : List Bytes} {e : Failure} {v : Bytes}
      {t : List String} {c : Cursor} (hr : 1 ≤ required ∧ required ≤ 16)
      (hl : ∀ key ∈ found, key.length = 65) (hd : 1 ≤ declared ∧ declared ≤ 16)
      (h : CountFails required found.length declared e v t c) : MultisigFails e
        (Standard.number required ::
          (found.flatMap Standard.pushed ++ Standard.number declared :: v))
        (Standard.numberToken required ::
          (found.flatMap Standard.pushTokens ++ Standard.numberToken declared :: t)) c

namespace Decoder

/-- Where a small integer must stand, only another opcode is refused. -/
theorem fails_number {α : Type} {b : UInt8} {op : Opcode} (hb : op = .ofByte b) (f : Int → α)
    (e : Failure) :
    Fails (match op.number? with
      | some n => do
        emit op
        pure (f n)
      | none => throw e)
      fun e' bytes tokens _ => op.number? = none ∧ e' = e ∧ bytes = [] ∧ tokens = [] := by
  subst hb
  cases hn : (Opcode.ofByte b).number? with
  | none => exact (fails_throw e).congr fun _ _ _ _ => (and_iff_right rfl).symm
  | some n =>
    have hm := Opcode.mnemonic_of_number? hn
    refine ((fails_emit _).bind (takes_emit _) fun _ => fails_pure (f n)).congr fun _ _ _ _ => ?_
    simp [hm]

theorem fails_threshold : Fails threshold fun e bytes tokens c =>
    (c.Lacks 1 e ∧ bytes = [] ∧ tokens = []) ∨ ∃ b, (Opcode.ofByte b).number? = none ∧
      e = .mismatch "OP_1..OP_16" b.toNat ∧ bytes = [b] ∧ tokens = [] := by
  refine (fails_opcode.bindTaken takes_opcode fun r _ _ hr =>
    fails_number hr.1 id (.mismatch "OP_1..OP_16" r.1.toNat)).congr fun e bytes tokens c => ?_
  constructor
  · intro h
    obtain h | ⟨r, _, _, _, _, ⟨hr, rfl, rfl⟩, ⟨hn, rfl, rfl, rfl⟩, rfl, rfl⟩ := h
    · exact .inl h
    · rw [hr] at hn
      exact .inr ⟨r.1, hn, rfl, rfl, rfl⟩
  · intro h
    obtain h | ⟨b, hn, rfl, rfl, rfl⟩ := h
    · exact .inl h
    · exact .inr ⟨(b, .ofByte b), [b], [], [], [], ⟨rfl, rfl, rfl⟩, ⟨hn, rfl, rfl, rfl⟩, rfl, rfl⟩

theorem fails_keyOr (op : Opcode) {other : Decoder (Option Int)}
    {failed : Failure → Bytes → List String → Cursor → Prop} (ho : Fails other failed) :
    Fails (if op = ⟨.push, some 65⟩ then do
        emit op
        let _ ← payload 65
        pure none
      else other)
      fun e bytes tokens c =>
        (op = ⟨.push, some 65⟩ ∧ c.Lacks 65 e ∧ bytes = [] ∧ tokens = ["OP_PUSHBYTES_65"]) ∨
        (op ≠ ⟨.push, some 65⟩ ∧ failed e bytes tokens c) := by
  by_cases hop : op = ⟨.push, some 65⟩
  · rw [if_pos hop, hop]
    refine ((fails_emit _).bind (takes_emit _) fun _ => (fails_payload Opcode.writable_key).bind
      (takes_payload 65) fun _ => fails_pure none).congr fun e bytes tokens c => ?_
    constructor
    · intro h
      obtain ⟨he, -⟩ | ⟨_, _, _, _, _, ⟨name, hm, rfl, rfl⟩, h, rfl, rfl⟩ := h
      · cases he.symm.trans Opcode.mnemonic_key
      · obtain ⟨⟨hneg, -⟩ | ⟨-, hl⟩, rfl, rfl⟩ | ⟨_, _, _, _, _, -, hf, -⟩ := h
        · omega
        · obtain rfl := Except.ok.inj (hm.symm.trans Opcode.mnemonic_key)
          exact .inl ⟨rfl, hl, rfl, rfl⟩
        · exact hf.elim
    · intro h
      obtain ⟨-, hl, rfl, rfl⟩ | ⟨hne, -⟩ := h
      · exact .inr ⟨(), [], _, [], [], ⟨_, Opcode.mnemonic_key, rfl, rfl⟩,
          .inl ⟨.inr ⟨by omega, hl⟩, rfl, rfl⟩, rfl, rfl⟩
      · exact absurd rfl hne
  · rw [if_neg hop]
    exact ho.congr fun _ _ _ _ => by simp [hop]

theorem fails_keyOrCount : Fails keyOrCount KeyFails := by
  have hpush {b : UInt8} : Opcode.ofByte b = ⟨.push, some 65⟩ ↔ b = 65 := by
    rw [Opcode.ofByte_push_iff, Opcode.longestPush]
    have hb := toNat_eq_iff (b := b) (n := 65) (by decide)
    constructor
    · intro h
      exact hb.1 h.2.2
    · intro h
      exact ⟨by decide, by decide, hb.2 h⟩
  refine (fails_opcode.bindTaken takes_opcode fun r _ _ hr => fails_keyOr r.2
    (fails_number hr.1 some (.multisigBody r.1.toNat))).congr fun e bytes tokens c => ?_
  constructor
  · intro h
    obtain ⟨hs, rfl, rfl⟩ | ⟨r, _, _, _, _, ⟨hr, rfl, rfl⟩, h, rfl, rfl⟩ := h
    · exact .short hs
    · rw [hr, hpush] at h
      obtain ⟨hb, hl, rfl, rfl⟩ | ⟨hb, hn, rfl, rfl, rfl⟩ := h
      · rw [hb]
        exact .key hl
      · exact .other (fun h => hb (hpush.2 h)) hn
  · intro h
    cases h with
    | short hs => exact .inl ⟨hs, rfl, rfl⟩
    | key hl =>
      exact .inr ⟨(65, .ofByte 65), [65], [], [], _, ⟨rfl, rfl, rfl⟩,
        .inl ⟨hpush.2 rfl, hl, rfl, rfl⟩, rfl, rfl⟩
    | @other b c hb hn =>
      exact .inr ⟨(b, .ofByte b), [b], [], [], [], ⟨rfl, rfl, rfl⟩,
        .inr ⟨fun h => hb (hpush.1 h), hn, rfl, rfl, rfl⟩, rfl, rfl⟩

theorem keys_eq_error_iff {observed : Nat} {p q : Progress} {e : Failure} :
    keys observed p = .error e q ↔ keyOrCount p = .error e q ∨
      ∃ m, keyOrCount p = .ok none m ∧ keys (observed + 1) m = .error e q := by
  rw [keys_eq_bind, run_bind_eq_error_iff]
  constructor
  · intro h
    rcases h with h | ⟨declared | declared, m, hk, h⟩
    · exact .inl h
    · exact .inr ⟨m, hk, h⟩
    · cases h
  · intro h
    rcases h with h | ⟨m, hk, h⟩
    · exact .inl h
    · exact .inr ⟨none, m, hk, h⟩

theorem fails_keys (observed : Nat) : Fails (keys observed) fun e bytes tokens c =>
    ∃ (found : List Bytes) (v : Bytes) (t : List String), (∀ key ∈ found, key.length = 65) ∧
      KeyFails e v t c ∧ bytes = found.flatMap Standard.pushed ++ v ∧
      tokens = found.flatMap Standard.pushTokens ++ t := by
  intro p e q
  constructor
  · -- along the recursion, which ends because every key shortens what is unread
    induction observed, p using keys.induct with
    | case1 observed p e' m h =>
      intro hk
      obtain hk | ⟨_, hn, -⟩ := keys_eq_error_iff.1 hk
      · obtain ⟨v, t, hf, hq⟩ := (fails_keyOrCount _ _ _).1 hk
        exact ⟨v, t, ⟨[], v, t, List.forall_mem_nil _, hf, rfl, rfl⟩, hq⟩
      · cases h.symm.trans hn
    | case2 observed p declared m h =>
      intro hk
      obtain hk | ⟨_, hn, -⟩ := keys_eq_error_iff.1 hk
      · cases h.symm.trans hk
      · cases h.symm.trans hn
    | case3 observed p m h ih =>
      intro hk
      obtain hk | ⟨_, hn, hk⟩ := keys_eq_error_iff.1 hk
      · cases h.symm.trans hk
      · obtain ⟨-, rfl⟩ := EStateM.Result.ok.inj (h.symm.trans hn)
        obtain ⟨_, _, ⟨found, v, t, hl, hf, rfl, rfl⟩, hq⟩ := ih hk
        obtain ⟨_, _, ⟨-, key, hkey, rfl, rfl⟩ | ⟨_, hr, -⟩, hm⟩ := (takes_keyOrCount _ _ _).1 h
        · refine ⟨_, _, ⟨key :: found, v, t, List.forall_mem_cons.2 ⟨hkey, hl⟩, hf, rfl, rfl⟩, ?_⟩
          simp only [List.flatMap_cons, List.append_assoc]
          exact Progress.advances_append_iff.2 ⟨m, hm, hq⟩
        · cases hr
  · -- along the keys, each of which is one turn of the loop
    intro h
    obtain ⟨_, _, ⟨found, v, t, hl, hf, rfl, rfl⟩, hq⟩ := h
    induction found generalizing observed p with
    | nil => exact keys_eq_error_iff.2 (.inl ((fails_keyOrCount _ _ _).2 ⟨v, t, hf, hq⟩))
    | cons key found ih =>
      obtain ⟨hkey, hl⟩ := List.forall_mem_cons.1 hl
      simp only [List.flatMap_cons, List.append_assoc] at hq
      obtain ⟨m, hm, hq⟩ := Progress.advances_append_iff.1 hq
      refine keys_eq_error_iff.2 (.inr ⟨m, ?_, ih (observed + 1) m hl hq⟩)
      exact (takes_keyOrCount _ _ _).2 ⟨_, _, .inl ⟨rfl, key, hkey, rfl, rfl⟩, hm⟩

theorem fails_counted (required : Int) (r : Nat × Int) :
    Fails (if r.1 ≠ r.2 then throw (.keyCount r.2 r.1)
      else if r.2 < required then throw (.threshold required r.2)
      else expect ⟨.checkMultisig, none⟩) (CountFails required r.1 r.2) := by
  by_cases hn : (r.1 : Int) = r.2
  · rw [if_neg fun h => h hn]
    by_cases hr : r.2 < required
    · rw [if_pos hr]
      refine (fails_throw _).congr fun e bytes tokens c => ⟨fun h => ?_, fun h => ?_⟩
      · obtain ⟨rfl, rfl, rfl⟩ := h
        exact .threshold hn hr
      · cases h with
        | count hne => exact absurd hn hne
        | threshold => exact ⟨rfl, rfl, rfl⟩
        | last _ hle => exact absurd hr (Int.not_lt.2 hle)
    · rw [if_neg hr]
      refine (fails_expect _).congr fun e bytes tokens c => ⟨.last hn (Int.not_lt.1 hr), fun h => ?_⟩
      cases h with
      | count hne => exact absurd hn hne
      | threshold _ hlt => exact absurd hlt hr
      | last _ _ hl => exact hl
  · rw [if_pos hn]
    refine (fails_throw _).congr fun e bytes tokens c => ⟨fun h => ?_, fun h => ?_⟩
    · obtain ⟨rfl, rfl, rfl⟩ := h
      exact .count hn
    · cases h with
      | count => exact ⟨rfl, rfl, rfl⟩
      | threshold he => exact absurd he hn
      | last he => exact absurd he hn

theorem fails_multisig : Fails multisig MultisigFails := by
  refine (fails_threshold.bind takes_threshold fun required => (fails_keys 0).bind (takes_keys 0)
    fun r => fails_counted required r).congr fun e bytes tokens c => ?_
  constructor
  · intro h
    obtain h | ⟨_, _, _, _, _, ⟨required, rfl, h1, h16, rfl, rfl⟩, h, rfl, rfl⟩ := h
    · obtain ⟨hs, rfl, rfl⟩ | ⟨b, hn, rfl, rfl, rfl⟩ := h
      · exact .start hs
      · exact .noThreshold hn
    · obtain ⟨found, v, t, hl, hf, rfl, rfl⟩ | ⟨_, _, _, v, t,
        ⟨found, declared, rfl, hd1, hd16, hl, rfl, rfl⟩, hf, rfl, rfl⟩ := h
      · exact .keys ⟨h1, h16⟩ hl hf
      · simp only [Nat.zero_add] at hf
        rw [List.append_assoc, List.append_assoc]
        exact .counted ⟨h1, h16⟩ hl ⟨hd1, hd16⟩ hf
  · intro h
    cases h with
    | start hs => exact .inl (.inl ⟨hs, rfl, rfl⟩)
    | @noThreshold b c hn => exact .inl (.inr ⟨b, hn, rfl, rfl, rfl⟩)
    | @keys required found e v t c hr hl hf =>
      exact .inr ⟨required, [Standard.number required], [Standard.numberToken required], _, _,
        ⟨required, rfl, hr.1, hr.2, rfl, rfl⟩, .inl ⟨found, v, t, hl, hf, rfl, rfl⟩, rfl, rfl⟩
    | @counted required declared found e v t c hr hl hd hf =>
      refine .inr ⟨required, [Standard.number required], [Standard.numberToken required], _, _,
        ⟨required, rfl, hr.1, hr.2, rfl, rfl⟩, .inr ⟨(found.length, (declared : Int)), _, _, v, t,
          ⟨found, declared, ?_, hd.1, hd.2, hl, rfl, rfl⟩, hf, rfl, rfl⟩, ?_, ?_⟩
      · rw [Nat.zero_add]
      · rw [List.append_assoc]
        rfl
      · rw [List.append_assoc]
        rfl

end Decoder

def Kind.Fails : Kind → Failure → Bytes → List String → Cursor → Prop
  | p2pk => Pattern.p2pk.Fails
  | p2pkh => Pattern.p2pkh.Fails
  | p2sh => Pattern.p2sh.Fails
  | p2wpkh => Pattern.p2wpkh.Fails
  | p2wsh => Pattern.p2wsh.Fails
  | p2tr => Pattern.p2tr.Fails
  | multisig => MultisigFails
  | dataCarrier => CarrierFails

theorem Decoder.fails_ofKind (kind : Kind) : Fails (ofKind kind) kind.Fails := by
  cases kind with
  | p2pk | p2pkh | p2sh | p2wpkh | p2wsh | p2tr => exact Pattern.fails_decode _
  | multisig => exact fails_multisig
  | dataCarrier => exact fails_dataCarrier

end CoinWire.Script
