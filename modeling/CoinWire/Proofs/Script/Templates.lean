import CoinWire.Proofs.Script.Advance
import CoinWire.Script.Shape

/-!
What each template takes. A pattern takes one match for each of its steps, in their order, and the patterns
in use are a single piece of data between named opcodes. The keys of a multisig script are read one by one
until their number stands there instead. In the end every template takes the standard scripts of its kind
and emits their tokens.
-/

namespace CoinWire.Script

open Decoder (Takes takes_opcode takes_emit takes_pure takes_throw takes_expect takes_named
  takes_push takes_payload)

/-- The standard scripts of one kind, with their tokens. -/
def Shaped (kind : Kind) (bytes : Bytes) (tokens : List String) : Prop :=
  ∃ s : Standard, s.kind = kind ∧ s.Valid ∧ bytes = s.bytes ∧ tokens = s.tokens

theorem shaped_iff {kind : Kind} {make : Bytes → Standard} (hk : ∀ s : Standard, s.kind = kind ↔
    ∃ data, s = make data) {bytes : Bytes} {tokens : List String} : Shaped kind bytes tokens ↔
      ∃ data, (make data).Valid ∧ bytes = (make data).bytes ∧ tokens = (make data).tokens := by
  simp only [Shaped, hk]
  constructor
  · intro h
    obtain ⟨_, ⟨data, rfl⟩, h⟩ := h
    exact ⟨data, h⟩
  · intro h
    obtain ⟨data, h⟩ := h
    exact ⟨_, ⟨data, rfl⟩, h⟩

theorem Decoder.taken_number_iff {b : UInt8} {n : Int} : (Opcode.ofByte b).number? = some n ↔
    ∃ m : Nat, n = m ∧ 1 ≤ m ∧ m ≤ 16 ∧ b = Standard.number m := by
  rw [Opcode.number?_ofByte_iff]
  simp only [Opcode.smallBase]
  constructor
  · intro h
    obtain ⟨h1, h2, hb⟩ := h
    refine ⟨n.toNat, by omega, by omega, by omega, ?_⟩
    exact (toNat_eq_iff (by omega)).1 (by omega)
  · intro h
    obtain ⟨m, rfl, h1, h2, hb⟩ := h
    have hn := (toNat_eq_iff (by omega)).2 hb
    omega

variable [DigitLimit]

def Step.Matches : Step → Bytes → List String → Prop
  | opcode op, bytes, tokens =>
    ∃ b name, Opcode.ofByte b = op ∧ op.mnemonic = .ok name ∧ bytes = [b] ∧ tokens = [name]
  | push n, bytes, tokens =>
    ∃ data : Bytes, (data.length : Int) = n ∧ 1 ≤ n ∧ n ≤ Opcode.longestPush ∧
      bytes = Standard.pushed data ∧ tokens = Standard.pushTokens data

theorem Step.takes_decode (step : Step) : Takes step.decode fun _ => step.Matches := by
  cases step with
  | opcode op => exact takes_expect op
  | push n => exact (takes_push n).discard

namespace Pattern

def Matches : Pattern → Bytes → List String → Prop
  | [], bytes, tokens => bytes = [] ∧ tokens = []
  | step :: rest, bytes, tokens => ∃ u s v t, step.Matches u s ∧ Matches rest v t ∧
    bytes = u ++ v ∧ tokens = s ++ t

theorem takes_decode (pattern : Pattern) : Takes pattern.decode fun _ => pattern.Matches := by
  induction pattern with
  | nil => exact (takes_pure ()).congr fun _ _ _ => and_iff_right rfl
  | cons step rest ih =>
    refine (step.takes_decode.bind fun _ => ih).congr fun _ bytes tokens => ?_
    constructor
    · intro h
      obtain ⟨_, u, s, v, t, hu, hv, hb, ht⟩ := h
      exact ⟨u, s, v, t, hu, hv, hb, ht⟩
    · intro h
      obtain ⟨u, s, v, t, hu, hv, hb, ht⟩ := h
      exact ⟨(), u, s, v, t, hu, hv, hb, ht⟩

def named (kinds : List OpKind) : Pattern := kinds.map fun kind => .opcode ⟨kind, none⟩

def namedBytes (kinds : List OpKind) : Bytes := kinds.filterMap OpKind.byte?

def names (kinds : List OpKind) : List String :=
  kinds.filterMap fun kind => (Opcode.mk kind none).mnemonic.toOption

variable {front back : List OpKind} {bytes : Bytes} {tokens : List String}

theorem matches_named_append (hf : ∀ kind ∈ front, kind.byte?.isSome) (rest : Pattern) :
    Matches (named front ++ rest) bytes tokens ↔
      ∃ v t, rest.Matches v t ∧ bytes = namedBytes front ++ v ∧ tokens = names front ++ t := by
  induction front generalizing bytes tokens with
  | nil => simp [named, namedBytes, names]
  | cons kind kinds ih =>
    obtain ⟨c, hc⟩ := Option.isSome_iff_exists.1 (hf kind (List.mem_cons_self ..))
    obtain ⟨name, hname⟩ := Opcode.exists_mnemonic_named hc
    have hb : namedBytes (kind :: kinds) = c :: namedBytes kinds := List.filterMap_cons_some hc
    have hn : names (kind :: kinds) = name :: names kinds :=
      List.filterMap_cons_some (by rw [hname]; rfl)
    rw [hb, hn]
    constructor
    · intro h
      obtain ⟨_, _, v, t, ⟨b, name', hop, hm, rfl, rfl⟩, hv, rfl, rfl⟩ := h
      obtain rfl := (Opcode.ofByte_named_iff hc).1 hop
      obtain rfl := Except.ok.inj (hm.symm.trans hname)
      obtain ⟨v, t, hr, rfl, rfl⟩ := (ih fun k hk => hf k (List.mem_cons_of_mem _ hk)).1 hv
      exact ⟨v, t, hr, rfl, rfl⟩
    · intro h
      obtain ⟨v, t, hr, rfl, rfl⟩ := h
      exact ⟨[c], [name], _, _, ⟨c, name, Opcode.ofByte_named hc, hname, rfl, rfl⟩,
        (ih fun k hk => hf k (List.mem_cons_of_mem _ hk)).2 ⟨v, t, hr, rfl, rfl⟩, rfl, rfl⟩

theorem matches_around (hf : ∀ kind ∈ front, kind.byte?.isSome)
    (hb : ∀ kind ∈ back, kind.byte?.isSome) {n : Nat} (h1 : 1 ≤ n) (h2 : n ≤ 75) :
    Matches (named front ++ .push n :: named back) bytes tokens ↔ ∃ data : Bytes, data.length = n ∧
      bytes = namedBytes front ++ (Standard.pushed data ++ namedBytes back) ∧
      tokens = names front ++ (Standard.pushTokens data ++ names back) := by
  have hback (v : Bytes) (t : List String) :
      Matches (named back) v t ↔ v = namedBytes back ∧ t = names back := by
    rw [← List.append_nil (named back), matches_named_append hb []]
    constructor
    · intro h
      obtain ⟨_, _, ⟨rfl, rfl⟩, hv⟩ := h
      rwa [List.append_nil, List.append_nil] at hv
    · intro h
      refine ⟨[], [], ⟨rfl, rfl⟩, ?_⟩
      rwa [List.append_nil, List.append_nil]
  rw [matches_named_append hf]
  constructor
  · intro h
    obtain ⟨_, _, ⟨_, _, v, t, ⟨data, hl, -, -, rfl, rfl⟩, hv, rfl, rfl⟩, rfl, rfl⟩ := h
    obtain ⟨rfl, rfl⟩ := (hback v t).1 hv
    exact ⟨data, Int.ofNat_inj.1 hl, rfl, rfl⟩
  · intro h
    obtain ⟨data, hl, rfl, rfl⟩ := h
    refine ⟨_, _, ⟨_, _, _, _, ⟨data, congrArg _ hl, ?_, ?_, rfl, rfl⟩, (hback _ _).2 ⟨rfl, rfl⟩,
      rfl, rfl⟩, rfl, rfl⟩
    · omega
    · simp only [Opcode.longestPush]
      omega

end Pattern

namespace Decoder

theorem takes_around {kind : Kind} (make : Bytes → Standard) (front back : List OpKind) (n : Nat)
    (hk : ∀ s : Standard, s.kind = kind ↔ ∃ data, s = make data)
    (hf : ∀ kind ∈ front, kind.byte?.isSome) (hb : ∀ kind ∈ back, kind.byte?.isSome)
    (hn : 1 ≤ n ∧ n ≤ 75) (hmake : ∀ data, ((make data).Valid ↔ data.length = n) ∧
      (make data).bytes =
        Pattern.namedBytes front ++ (Standard.pushed data ++ Pattern.namedBytes back) ∧
      (make data).tokens =
        Pattern.names front ++ (Standard.pushTokens data ++ Pattern.names back)) :
    Takes (Pattern.named front ++ .push n :: Pattern.named back : Pattern).decode
      fun _ => Shaped kind := by
  refine (Pattern.takes_decode _).congr fun _ bytes tokens => ?_
  rw [Pattern.matches_around hf hb hn.1 hn.2, shaped_iff hk]
  constructor
  · intro h
    obtain ⟨data, hl, hbytes, htokens⟩ := h
    obtain ⟨hv, hb, ht⟩ := hmake data
    exact ⟨data, hv.2 hl, hbytes.trans hb.symm, htokens.trans ht.symm⟩
  · intro h
    obtain ⟨data, hl, hbytes, htokens⟩ := h
    obtain ⟨hv, hb, ht⟩ := hmake data
    exact ⟨data, hv.1 hl, hbytes.trans hb, htokens.trans ht⟩

theorem takes_pushed {b : UInt8} {op : Opcode} (hb : op = .ofByte b) (e : Failure) :
    Takes (match op.kind, op.value with
      | .push, some length => do
        emit op
        discard (payload length)
      | _, _ => throw e)
      fun _ bytes tokens => ∃ data : Bytes, op = ⟨.push, some (data.length : Int)⟩ ∧ bytes = data ∧
        tokens = Standard.pushTokens data := by
  obtain ⟨kind, value⟩ := op
  cases kind with
  | push =>
    cases value with
    | none => exact (takes_throw e).congr fun _ _ _ => by simp
    | some length =>
      have hm := Opcode.mnemonic_pushed hb.symm
      refine ((takes_emit ⟨.push, some length⟩).bind fun _ => (takes_payload length).discard).congr
        fun _ bytes tokens => ?_
      constructor
      · intro h
        obtain ⟨_, _, _, _, _, ⟨name, hname, rfl, rfl⟩, ⟨data, rfl, rfl, rfl⟩, rfl, rfl⟩ := h
        obtain rfl := Except.ok.inj (hname.symm.trans hm)
        exact ⟨_, rfl, rfl, rfl⟩
      · intro h
        obtain ⟨data, hop, rfl, rfl⟩ := h
        obtain rfl := Option.some.inj (Opcode.mk.inj hop).2
        exact ⟨(), [], _, _, _, ⟨_, hm, rfl, rfl⟩, ⟨_, rfl, rfl, rfl⟩, rfl, rfl⟩
  | zero | one | small | dup | hash160 | equal | equalVerify | checkSig | checkMultisig | ret
    | unsupported => exact (takes_throw e).congr fun _ _ _ => by simp

theorem takes_dataCarrier : Takes dataCarrier fun _ => Shaped .dataCarrier := by
  have hk (s : Standard) : s.kind = .dataCarrier ↔ ∃ data, s = .dataCarrier data := by
    cases s <;> simp [Standard.kind]
  have hret : Takes (expect ⟨.ret, none⟩) fun _ bytes tokens =>
      bytes = [0x6a] ∧ tokens = ["OP_RETURN"] :=
    takes_named rfl rfl
  refine (hret.bind fun _ => takes_opcode.bindTaken fun r _ _ hr =>
    takes_pushed hr.1 (.pushExpected r.1.toNat)).congr fun _ bytes tokens => ?_
  rw [shaped_iff hk]
  constructor
  · intro h
    obtain ⟨_, _, _, _, _, ⟨rfl, rfl⟩, h, rfl, rfl⟩ := h
    obtain ⟨r, _, _, _, _, ⟨hr, rfl, rfl⟩, ⟨data, hop, rfl, rfl⟩, rfl, rfl⟩ := h
    obtain ⟨h1, h2, hn⟩ := Opcode.ofByte_pushed_iff.1 (hr.symm.trans hop)
    refine ⟨_, ⟨h1, h2⟩, ?_, rfl⟩
    rw [hn]
    rfl
  · intro h
    obtain ⟨data, ⟨h1, h2⟩, rfl, rfl⟩ := h
    have hb := Opcode.ofByte_pushed_iff.2 ⟨h1, h2, rfl⟩
    exact ⟨(), _, _, _, _, ⟨rfl, rfl⟩,
      ⟨(UInt8.ofNat data.length, _), _, _, _, _, ⟨hb.symm, rfl, rfl⟩, ⟨data, rfl, rfl, rfl⟩,
        rfl, rfl⟩, rfl, rfl⟩

theorem takes_number {α : Type} {b : UInt8} {op : Opcode} (hb : op = .ofByte b) (f : Int → α)
    (e : Failure) :
    Takes (match op.number? with
      | some n => do
        emit op
        pure (f n)
      | none => throw e)
      fun a bytes tokens => ∃ n : Int, op.number? = some n ∧ a = f n ∧ bytes = [] ∧
        tokens = ["OP_" ++ toString n] := by
  subst hb
  cases hn : (Opcode.ofByte b).number? with
  | none => exact (takes_throw e).congr fun _ _ _ => by simp
  | some n =>
    have hm := Opcode.mnemonic_of_number? hn
    refine ((takes_emit (.ofByte b)).bind fun _ => takes_pure (f n)).congr fun a bytes tokens => ?_
    constructor
    · intro h
      obtain ⟨_, _, _, _, _, ⟨name, hname, rfl, rfl⟩, ⟨rfl, rfl, rfl⟩, rfl, rfl⟩ := h
      obtain rfl := Except.ok.inj (hname.symm.trans hm)
      exact ⟨n, rfl, rfl, rfl, rfl⟩
    · intro h
      obtain ⟨_, hsome, rfl, rfl, rfl⟩ := h
      obtain rfl := Option.some.inj hsome
      exact ⟨(), [], _, [], [], ⟨_, hm, rfl, rfl⟩, ⟨rfl, rfl, rfl⟩, rfl, rfl⟩

theorem takes_threshold : Takes threshold fun n bytes tokens => ∃ required : Nat, n = required ∧
    1 ≤ required ∧ required ≤ 16 ∧ bytes = [Standard.number required] ∧
      tokens = [Standard.numberToken required] := by
  refine (takes_opcode.bindTaken fun r _ _ hr =>
    takes_number hr.1 id (.mismatch "OP_1..OP_16" r.1.toNat)).congr fun n bytes tokens => ?_
  constructor
  · intro h
    obtain ⟨r, _, _, _, _, ⟨hr, rfl, rfl⟩, ⟨_, hn, rfl, rfl, rfl⟩, rfl, rfl⟩ := h
    rw [hr] at hn
    obtain ⟨m, rfl, h1, h2, hb⟩ := taken_number_iff.1 hn
    refine ⟨m, rfl, h1, h2, ?_, rfl⟩
    rw [hb]
    rfl
  · intro h
    obtain ⟨m, rfl, h1, h2, rfl, rfl⟩ := h
    have hn := taken_number_iff.2 ⟨m, rfl, h1, h2, rfl⟩
    exact ⟨(Standard.number m, _), _, _, _, _, ⟨rfl, rfl, rfl⟩, ⟨_, hn, rfl, rfl, rfl⟩, rfl, rfl⟩

theorem takes_keyOr (op : Opcode) {other : Decoder (Option Int)}
    {taken : Option Int → Bytes → List String → Prop} (ho : Takes other taken) :
    Takes (if op = ⟨.push, some 65⟩ then do
        emit op
        let _ ← payload 65
        pure none
      else other)
      fun r bytes tokens => (op = ⟨.push, some 65⟩ ∧ r = none ∧ ∃ key : Bytes, key.length = 65 ∧
        bytes = key ∧ tokens = Standard.pushTokens key) ∨
        (op ≠ ⟨.push, some 65⟩ ∧ taken r bytes tokens) := by
  by_cases hop : op = ⟨.push, some 65⟩
  · rw [if_pos hop, hop]
    refine ((takes_emit _).bind fun _ => (takes_payload 65).bind fun _ => takes_pure none).congr
      fun r bytes tokens => ?_
    constructor
    · intro h
      obtain ⟨_, _, _, _, _, ⟨name, hm, rfl, rfl⟩, h, rfl, rfl⟩ := h
      obtain ⟨key, _, _, _, _, ⟨hl, rfl, rfl⟩, ⟨rfl, rfl, rfl⟩, rfl, rfl⟩ := h
      obtain rfl := Except.ok.inj (hm.symm.trans Opcode.mnemonic_key)
      refine .inl ⟨rfl, rfl, _, Int.ofNat_inj.1 hl, List.append_nil _, ?_⟩
      rw [Standard.pushTokens, Int.ofNat_inj.1 hl]
      rfl
    · intro h
      obtain ⟨-, rfl, key, hl, rfl, rfl⟩ | ⟨hne, -⟩ := h
      · refine ⟨(), [], _, _, _, ⟨_, Opcode.mnemonic_key, rfl, rfl⟩,
          ⟨_, _, _, [], [], ⟨congrArg _ hl, rfl, rfl⟩, ⟨rfl, rfl, rfl⟩,
          rfl, rfl⟩, (List.append_nil _).symm, ?_⟩
        rw [Standard.pushTokens, hl]
        rfl
      · exact absurd rfl hne
  · rw [if_neg hop]
    exact ho.congr fun _ _ _ => by simp [hop]

theorem takes_keyOrCount : Takes keyOrCount fun r bytes tokens =>
    (r = none ∧ ∃ key : Bytes, key.length = 65 ∧ bytes = Standard.pushed key ∧
      tokens = Standard.pushTokens key) ∨
    ∃ declared : Nat, r = some (declared : Int) ∧ 1 ≤ declared ∧ declared ≤ 16 ∧
      bytes = [Standard.number declared] ∧ tokens = [Standard.numberToken declared] := by
  refine (takes_opcode.bindTaken fun r _ _ hr => takes_keyOr r.2
    (takes_number hr.1 some (.multisigBody r.1.toNat))).congr fun r bytes tokens => ?_
  constructor
  · intro h
    obtain ⟨r, _, _, _, _, ⟨hr, rfl, rfl⟩, hcase, rfl, rfl⟩ := h
    rw [hr] at hcase
    obtain ⟨hop, rfl, key, hl, rfl, rfl⟩ | ⟨-, _, hn, rfl, rfl, rfl⟩ := hcase
    · obtain ⟨-, -, hb⟩ := Opcode.ofByte_pushed_iff.1 hop
      refine .inl ⟨rfl, _, hl, ?_, rfl⟩
      rw [Standard.pushed, hl, hb]
      rfl
    · obtain ⟨m, rfl, h1, h2, hb⟩ := taken_number_iff.1 hn
      refine .inr ⟨m, rfl, h1, h2, ?_, rfl⟩
      rw [hb]
      rfl
  · intro h
    obtain ⟨rfl, key, hl, rfl, rfl⟩ | ⟨m, rfl, h1, h2, rfl, rfl⟩ := h
    · have hb : Opcode.ofByte 65 = ⟨.push, some 65⟩ := by
        decide
      refine ⟨(65, .ofByte 65), _, _, _, _, ⟨rfl, rfl, rfl⟩, .inl ⟨hb, rfl, key, hl, rfl, rfl⟩,
        ?_, rfl⟩
      rw [Standard.pushed, hl]
      rfl
    · have hn := taken_number_iff.2 ⟨m, rfl, h1, h2, rfl⟩
      refine ⟨(Standard.number m, .ofByte (Standard.number m)), _, _, _, _, ⟨rfl, rfl, rfl⟩,
        .inr ⟨?_, _, hn, rfl, rfl, rfl⟩, rfl, rfl⟩
      intro hop
      cases (congrArg Opcode.number? hop).symm.trans hn

/-- One turn of the loop. -/
theorem keys_eq_bind (observed : Nat) : (keys observed : Decoder (Nat × Int)) =
    keyOrCount >>= fun r => match r with
      | some declared => pure (observed, declared)
      | none => keys (observed + 1) := by
  funext p
  rw [keys]
  simp only [bind, EStateM.bind]
  split
  · next h => simp only [h]
  · next h => simp only [h, pure, EStateM.pure]
  · next h => simp only [h]

theorem keys_eq_ok_iff {observed : Nat} {p q : Progress} {r : Nat × Int} :
    keys observed p = .ok r q ↔
      (∃ declared, keyOrCount p = .ok (some declared) q ∧ r = (observed, declared)) ∨
        ∃ m, keyOrCount p = .ok none m ∧ keys (observed + 1) m = .ok r q := by
  rw [keys_eq_bind, run_bind_eq_ok_iff]
  constructor
  · intro h
    rcases h with ⟨declared | declared, m, hk, h⟩
    · exact .inr ⟨m, hk, h⟩
    · obtain ⟨rfl, rfl⟩ := EStateM.Result.ok.inj h
      exact .inl ⟨declared, hk, rfl⟩
  · intro h
    rcases h with ⟨declared, hk, rfl⟩ | ⟨m, hk, h⟩
    · exact ⟨some declared, q, hk, rfl⟩
    · exact ⟨none, m, hk, h⟩

/-- The loop takes keys as long as keys follow, and ends with their number. -/
theorem takes_keys (observed : Nat) : Takes (keys observed) fun r bytes tokens =>
    ∃ (found : List Bytes) (declared : Nat), r = (observed + found.length, (declared : Int)) ∧
      1 ≤ declared ∧ declared ≤ 16 ∧ (∀ key ∈ found, key.length = 65) ∧
      bytes = found.flatMap Standard.pushed ++ [Standard.number declared] ∧
      tokens = found.flatMap Standard.pushTokens ++ [Standard.numberToken declared] := by
  intro p r q
  constructor
  · -- along the recursion, which ends because every key shortens what is unread
    induction observed, p using keys.induct with
    | case1 observed p e m h =>
      intro hk
      obtain ⟨_, hd, -⟩ | ⟨_, hn, -⟩ := keys_eq_ok_iff.1 hk
      · cases h.symm.trans hd
      · cases h.symm.trans hn
    | case2 observed p declared m h =>
      intro hk
      obtain ⟨_, hd, rfl⟩ | ⟨_, hn, -⟩ := keys_eq_ok_iff.1 hk
      · obtain ⟨_, _, ⟨hr, -⟩ | ⟨n, hr, h1, h2, rfl, rfl⟩, hq⟩ := (takes_keyOrCount _ _ _).1 hd
        · cases hr
        · obtain rfl := Option.some.inj hr
          exact ⟨_, _, ⟨[], n, rfl, h1, h2, by simp, rfl, rfl⟩, hq⟩
      · cases h.symm.trans hn
    | case3 observed p m h ih =>
      intro hk
      obtain ⟨_, hd, -⟩ | ⟨_, hn, hk⟩ := keys_eq_ok_iff.1 hk
      · cases h.symm.trans hd
      · obtain ⟨-, rfl⟩ := EStateM.Result.ok.inj (h.symm.trans hn)
        obtain ⟨_, _, ⟨found, n, rfl, h1, h2, hl, rfl, rfl⟩, hq⟩ := ih hk
        obtain ⟨_, _, ⟨-, key, hkey, rfl, rfl⟩ | ⟨_, hr, -⟩, hm⟩ := (takes_keyOrCount _ _ _).1 h
        · refine ⟨_, _, ⟨key :: found, n, ?_, h1, h2, ?_, rfl, rfl⟩, ?_⟩
          · rw [List.length_cons, Nat.add_assoc, Nat.add_comm 1]
          · exact List.forall_mem_cons.2 ⟨hkey, hl⟩
          · simp only [List.flatMap_cons, List.append_assoc]
            exact Progress.advances_append_iff.2 ⟨m, hm, hq⟩
        · cases hr
  · -- along the keys, each of which is one turn of the loop
    intro h
    obtain ⟨_, _, ⟨found, n, rfl, h1, h2, hl, rfl, rfl⟩, hq⟩ := h
    induction found generalizing observed p with
    | nil =>
      refine keys_eq_ok_iff.2 (.inl ⟨n, ?_, rfl⟩)
      exact (takes_keyOrCount _ _ _).2 ⟨_, _, .inr ⟨n, rfl, h1, h2, rfl, rfl⟩, hq⟩
    | cons key found ih =>
      obtain ⟨hkey, hl⟩ := List.forall_mem_cons.1 hl
      simp only [List.flatMap_cons, List.append_assoc] at hq
      obtain ⟨m, hm, hq⟩ := Progress.advances_append_iff.1 hq
      refine keys_eq_ok_iff.2 (.inr ⟨m, ?_, ?_⟩)
      · exact (takes_keyOrCount _ _ _).2 ⟨_, _, .inl ⟨rfl, key, hkey, rfl, rfl⟩, hm⟩
      · have hk := ih (observed + 1) m hl hq
        rwa [Nat.add_assoc, Nat.add_comm 1] at hk

theorem takes_counted (required : Int) (r : Nat × Int) :
    Takes (if r.1 ≠ r.2 then throw (.keyCount r.2 r.1)
      else if r.2 < required then throw (.threshold required r.2)
      else expect ⟨.checkMultisig, none⟩)
      fun _ bytes tokens => (r.1 = r.2 ∧ required ≤ r.2) ∧ bytes = [0xae] ∧
        tokens = ["OP_CHECKMULTISIG"] := by
  by_cases hn : (r.1 : Int) = r.2
  · rw [if_neg fun h => h hn]
    by_cases hr : r.2 < required
    · rw [if_pos hr]
      exact (takes_throw _).congr fun _ _ _ => by simp [Int.not_le.2 hr]
    · rw [if_neg hr]
      refine Takes.congr (takes_named rfl rfl) fun _ bytes tokens => ?_
      exact (and_iff_right ⟨hn, Int.not_lt.1 hr⟩).symm
  · rw [if_pos hn]
    exact (takes_throw _).congr fun _ _ _ => by simp [hn]

theorem takes_multisig : Takes multisig fun _ => Shaped .multisig := by
  refine (takes_threshold.bind fun required => (takes_keys 0).bind fun r =>
    takes_counted required r).congr fun _ bytes tokens => ?_
  constructor
  · intro h
    obtain ⟨_, _, _, _, _, ⟨required, rfl, h1, -, rfl, rfl⟩, h, rfl, rfl⟩ := h
    obtain ⟨_, _, _, _, _, ⟨keys, declared, rfl, -, h16, hl, rfl, rfl⟩, ⟨⟨hn, hr⟩, rfl, rfl⟩,
      rfl, rfl⟩ := h
    obtain rfl : keys.length = declared := Int.ofNat_inj.1 (by simpa using hn)
    refine ⟨.multisig required keys, rfl, ⟨h1, Int.ofNat_le.1 hr, h16, hl⟩, ?_, ?_⟩
    · simp [Standard.bytes]
    · simp [Standard.tokens]
  · intro h
    obtain ⟨s, hk, hv, rfl, rfl⟩ := h
    cases s with
    | multisig required keys =>
      obtain ⟨h1, hr, h16, hl⟩ := hv
      refine ⟨(required : Int), [Standard.number required], [Standard.numberToken required], _, _,
        ⟨required, rfl, h1, by omega, rfl, rfl⟩, ⟨(keys.length, (keys.length : Int)), _, _, _, _,
          ⟨keys, keys.length, ?_, by omega, h16, hl, rfl, rfl⟩,
          ⟨⟨rfl, Int.ofNat_le.2 hr⟩, rfl, rfl⟩, rfl, rfl⟩, ?_, ?_⟩
      · rw [Nat.zero_add]
      · simp [Standard.bytes]
      · simp [Standard.tokens]
    | p2pk | p2pkh | p2sh | p2wpkh | p2wsh | p2tr | dataCarrier => cases hk

theorem takes_ofKind (kind : Kind) : Takes (ofKind kind) fun _ => Shaped kind := by
  cases kind with
  | multisig => exact takes_multisig
  | dataCarrier => exact takes_dataCarrier
  | p2pk =>
    exact takes_around .p2pk [] [.checkSig] 65 (fun s => by cases s <;> simp [Standard.kind])
      (by decide) (by decide) (by decide) fun _ => ⟨Iff.rfl, rfl, rfl⟩
  | p2pkh =>
    exact takes_around .p2pkh [.dup, .hash160] [.equalVerify, .checkSig] 20
      (fun s => by cases s <;> simp [Standard.kind]) (by decide) (by decide) (by decide)
      fun _ => ⟨Iff.rfl, rfl, rfl⟩
  | p2sh =>
    exact takes_around .p2sh [.hash160] [.equal] 20 (fun s => by cases s <;> simp [Standard.kind])
      (by decide) (by decide) (by decide) fun _ => ⟨Iff.rfl, rfl, rfl⟩
  | p2wpkh =>
    exact takes_around .p2wpkh [.zero] [] 20 (fun s => by cases s <;> simp [Standard.kind])
      (by decide) (by decide) (by decide) fun hash =>
        ⟨Iff.rfl, congrArg (0x00 :: ·) (List.append_nil _).symm, rfl⟩
  | p2wsh =>
    exact takes_around .p2wsh [.zero] [] 32 (fun s => by cases s <;> simp [Standard.kind])
      (by decide) (by decide) (by decide) fun hash =>
        ⟨Iff.rfl, congrArg (0x00 :: ·) (List.append_nil _).symm, rfl⟩
  | p2tr =>
    exact takes_around .p2tr [.one] [] 32 (fun s => by cases s <;> simp [Standard.kind])
      (by decide) (by decide) (by decide) fun key =>
        ⟨Iff.rfl, congrArg (0x51 :: ·) (List.append_nil _).symm, rfl⟩

end Decoder

end CoinWire.Script
