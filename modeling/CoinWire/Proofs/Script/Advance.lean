import CoinWire.Proofs.Outcome
import CoinWire.Proofs.Script.Opcodes
import CoinWire.Script.Decoder
import CoinWire.Script.Standard

/-!
Decoders against the bytes they consume and the tokens they emit. From one progress to the next, the bytes
move from the unread to the passed ones and the tokens stand behind those there were; steps one after
another consume and emit one after another. What a decoder takes is known from what its steps take.
-/

namespace CoinWire.Script

namespace Cursor

def Moves (c : Cursor) (bytes : Bytes) (d : Cursor) : Prop :=
  c.unread = bytes ++ d.unread ∧ d.past = bytes.reverse ++ c.past

theorem Moves.position {c d : Cursor} {bytes : Bytes} (h : c.Moves bytes d) :
    d.position = c.position + bytes.length := by
  rw [Cursor.position, h.2, List.length_append, List.length_reverse, Nat.add_comm]
  rfl

theorem Moves.data_eq {c d : Cursor} {bytes : Bytes} (h : c.Moves bytes d) : d.data = c.data := by
  obtain ⟨hu, hp⟩ := h
  rw [Cursor.data, Cursor.data, hu, hp, List.reverse_append, List.reverse_reverse,
    List.append_assoc]

theorem next_eq_ok_iff {c d : Cursor} {b : UInt8} : c.next = .ok (b, d) ↔ c.Moves [b] d := by
  obtain ⟨past, unread⟩ := c
  obtain ⟨past', unread'⟩ := d
  cases unread with
  | nil => simp [next, Moves]
  | cons first rest =>
    simp only [next, Moves, Except.ok.injEq, Prod.mk.injEq, mk.injEq]
    constructor
    · intro h
      obtain ⟨rfl, rfl, rfl⟩ := h
      exact ⟨rfl, rfl⟩
    · intro h
      obtain ⟨hu, rfl⟩ := h
      obtain ⟨rfl, rfl⟩ := List.cons.inj hu
      exact ⟨rfl, rfl, rfl⟩

theorem peek_eq_ok_iff [DigitLimit] {c : Cursor} {n : Int} {data : Bytes} :
    c.peek n = .ok data ↔ (data.length : Int) = n ∧ data <+: c.unread := by
  rw [peek, remaining]
  constructor
  · intro h
    by_cases hn : n < 0
    · rw [if_pos hn] at h
      cases h
    · by_cases hs : (c.unread.length : Int) < n
      · rw [if_neg hn, if_pos hs] at h
        cases h
      · rw [if_neg hn, if_neg hs] at h
        obtain rfl := Except.ok.inj h
        refine ⟨?_, List.take_prefix ..⟩
        rw [List.length_take]
        omega
  · intro h
    obtain ⟨rfl, hp⟩ := h
    have hl := hp.length_le
    rw [if_neg (by omega), if_neg (by omega), Int.toNat_natCast, ← List.prefix_iff_eq_take.1 hp]

theorem read_eq_ok_iff [DigitLimit] {c d : Cursor} {n : Int} {data : Bytes} :
    c.read n = .ok (data, d) ↔ (data.length : Int) = n ∧ c.Moves data d := by
  obtain ⟨past', unread'⟩ := d
  rw [read, map_eq_ok_iff]
  constructor
  · intro h
    obtain ⟨got, hg, he⟩ := h
    obtain ⟨rfl, hd⟩ := Prod.mk.inj he
    obtain ⟨rfl, rest, hu⟩ := peek_eq_ok_iff.1 hg
    simp only [skip, Int.toNat_natCast, ← hu, List.take_left' rfl, List.drop_left' rfl,
      mk.injEq] at hd
    obtain ⟨rfl, rfl⟩ := hd
    exact ⟨rfl, hu.symm, rfl⟩
  · intro h
    obtain ⟨rfl, hu, hp⟩ := h
    have hskip : c.skip (Int.toNat data.length) = ⟨past', unread'⟩ := by
      simp only [skip, Int.toNat_natCast, hu, List.take_left' rfl, List.drop_left' rfl,
        mk.injEq, and_true]
      exact hp.symm
    exact ⟨data, peek_eq_ok_iff.2 ⟨rfl, unread', hu.symm⟩, by rw [hskip]⟩

end Cursor

def Progress.Advances (p : Progress) (bytes : Bytes) (tokens : List String) (q : Progress) : Prop :=
  p.cursor.Moves bytes q.cursor ∧ q.asm.tokens = p.asm.tokens ++ tokens

namespace Progress

variable {p q : Progress}

theorem ext_iff : p = q ↔ p.cursor.past = q.cursor.past ∧ p.cursor.unread = q.cursor.unread ∧
    p.asm.tokens = q.asm.tokens := by
  obtain ⟨⟨past, unread⟩, ⟨tokens⟩⟩ := p
  obtain ⟨⟨past', unread'⟩, ⟨tokens'⟩⟩ := q
  simp only [mk.injEq, Cursor.mk.injEq, Asm.mk.injEq, and_assoc]

theorem advances_nil_iff : p.Advances [] [] q ↔ q = p := by
  rw [ext_iff]
  simp only [Advances, Cursor.Moves, List.nil_append, List.append_nil, List.reverse_nil]
  constructor
  · intro h
    exact ⟨h.1.2, h.1.1.symm, h.2⟩
  · intro h
    exact ⟨⟨h.2.1.symm, h.1⟩, h.2.2⟩

theorem advances_append_iff {u v : Bytes} {s t : List String} :
    p.Advances (u ++ v) (s ++ t) q ↔ ∃ m, p.Advances u s m ∧ m.Advances v t q := by
  constructor
  · intro h
    obtain ⟨⟨hu, hp⟩, ht⟩ := h
    refine ⟨⟨⟨u.reverse ++ p.cursor.past, v ++ q.cursor.unread⟩, ⟨p.asm.tokens ++ s⟩⟩,
      ⟨⟨?_, rfl⟩, rfl⟩, ⟨rfl, ?_⟩, ?_⟩
    · rw [hu, List.append_assoc]
    · rw [hp, List.reverse_append, List.append_assoc]
    · rw [ht, List.append_assoc]
  · intro h
    obtain ⟨m, ⟨⟨hu, hp⟩, ht⟩, ⟨hv, hq⟩, hs⟩ := h
    refine ⟨⟨?_, ?_⟩, ?_⟩
    · rw [hu, hv, List.append_assoc]
    · rw [hq, hp, List.reverse_append, List.append_assoc]
    · rw [hs, ht, List.append_assoc]

/-- Where `p` gets by consuming `bytes` and emitting `tokens`, with `rest` left unread. -/
def after (p : Progress) (bytes : Bytes) (tokens : List String) (rest : Bytes) : Progress :=
  ⟨⟨bytes.reverse ++ p.cursor.past, rest⟩, ⟨p.asm.tokens ++ tokens⟩⟩

section After

variable {bytes rest : Bytes} {tokens : List String}

@[simp] theorem unread_after : (p.after bytes tokens rest).cursor.unread = rest := rfl

@[simp] theorem position_after :
    (p.after bytes tokens rest).cursor.position = p.cursor.position + bytes.length := by
  simp only [after, Cursor.position, List.length_append, List.length_reverse]
  omega

theorem advances_after (h : p.cursor.unread = bytes ++ rest) :
    p.Advances bytes tokens (p.after bytes tokens rest) :=
  ⟨⟨h, rfl⟩, rfl⟩

theorem data_after (h : p.cursor.unread = bytes ++ rest) :
    (p.after bytes tokens rest).cursor.data = p.cursor.data :=
  (advances_after h).1.data_eq

theorem Advances.eq_after (h : p.Advances bytes tokens q) :
    q = p.after bytes tokens q.cursor.unread :=
  ext_iff.2 ⟨h.1.2, rfl, h.2⟩

end After

end Progress

namespace Decoder

variable {α β : Type}

/-- Where a decoder leaves its progress, whether it fails or not. -/
def left (decoder : Decoder α) (p : Progress) : Progress :=
  match decoder p with
  | .ok _ q => q
  | .error _ q => q

theorem left_of_ok {decoder : Decoder α} {p q : Progress} {a : α} (h : decoder p = .ok a q) :
    decoder.left p = q := by
  rw [left, h]

theorem left_of_error {decoder : Decoder α} {p q : Progress} {e : Failure}
    (h : decoder p = .error e q) : decoder.left p = q := by
  rw [left, h]

/-- Here `taken a bytes tokens` says that the bytes are read as `a` and shown as the tokens. -/
def Takes (decoder : Decoder α) (taken : α → Bytes → List String → Prop) : Prop :=
  ∀ p a q, decoder p = .ok a q ↔ ∃ bytes tokens, taken a bytes tokens ∧ p.Advances bytes tokens q

variable {decoder : Decoder α} {taken : α → Bytes → List String → Prop}

theorem Takes.congr {other : α → Bytes → List String → Prop} (h : Takes decoder taken)
    (ho : ∀ a bytes tokens, taken a bytes tokens ↔ other a bytes tokens) : Takes decoder other := by
  intro p a q
  rw [h p a q]
  simp only [ho]

theorem Takes.run (h : Takes decoder taken) {p : Progress} {a : α} {bytes rest : Bytes}
    {tokens : List String} (ha : taken a bytes tokens) (hu : p.cursor.unread = bytes ++ rest) :
    decoder p = .ok a (p.after bytes tokens rest) :=
  (h _ _ _).2 ⟨bytes, tokens, ha, Progress.advances_after hu⟩

theorem takes_pure (a : α) :
    Takes (pure a) fun b bytes tokens => b = a ∧ bytes = [] ∧ tokens = [] := by
  intro p b q
  simp only [pure, EStateM.pure, EStateM.Result.ok.injEq]
  constructor
  · intro h
    obtain ⟨rfl, rfl⟩ := h
    exact ⟨[], [], ⟨rfl, rfl, rfl⟩, Progress.advances_nil_iff.2 rfl⟩
  · intro h
    obtain ⟨_, _, ⟨rfl, rfl, rfl⟩, h⟩ := h
    exact ⟨rfl, (Progress.advances_nil_iff.1 h).symm⟩

theorem takes_throw (e : Failure) : Takes (throw e : Decoder α) fun _ _ _ => False := by
  intro p a q
  constructor
  · intro h
    cases h
  · intro h
    obtain ⟨_, _, hf, -⟩ := h
    exact hf.elim

/-- The second decoder only matters for what the first one takes. -/
theorem Takes.bindTaken (h : Takes decoder taken) {next : α → Decoder β}
    {following : α → β → Bytes → List String → Prop}
    (hn : ∀ a u s, taken a u s → Takes (next a) (following a)) :
    Takes (decoder >>= next) fun b bytes tokens => ∃ a u s v t, taken a u s ∧ following a b v t ∧
      bytes = u ++ v ∧ tokens = s ++ t := by
  intro p b q
  rw [run_bind_eq_ok_iff]
  constructor
  · intro hr
    obtain ⟨a, m, ha, hb⟩ := hr
    obtain ⟨u, s, hu, hm⟩ := (h _ _ _).1 ha
    obtain ⟨v, t, hv, hq⟩ := (hn a u s hu _ _ _).1 hb
    exact ⟨u ++ v, s ++ t, ⟨a, u, s, v, t, hu, hv, rfl, rfl⟩,
      Progress.advances_append_iff.2 ⟨m, hm, hq⟩⟩
  · intro hr
    obtain ⟨_, _, ⟨a, u, s, v, t, hu, hv, rfl, rfl⟩, hq⟩ := hr
    obtain ⟨m, hm, hq⟩ := Progress.advances_append_iff.1 hq
    exact ⟨a, m, (h _ _ _).2 ⟨u, s, hu, hm⟩, (hn a u s hu _ _ _).2 ⟨v, t, hv, hq⟩⟩

theorem Takes.bind (h : Takes decoder taken) {next : α → Decoder β}
    {following : α → β → Bytes → List String → Prop} (hn : ∀ a, Takes (next a) (following a)) :
    Takes (decoder >>= next) fun b bytes tokens => ∃ a u s v t, taken a u s ∧ following a b v t ∧
      bytes = u ++ v ∧ tokens = s ++ t :=
  h.bindTaken fun a _ _ _ => hn a

theorem discard_eq_bind (decoder : Decoder α) :
    Functor.discard decoder = decoder >>= fun _ => pure () := by
  funext p
  change EStateM.map _ decoder p = EStateM.bind decoder _ p
  simp only [EStateM.map, EStateM.bind]
  cases decoder p with
  | error e m => rfl
  | ok a m => rfl

theorem Takes.discard (h : Takes decoder taken) :
    Takes (discard decoder) fun _ bytes tokens => ∃ a, taken a bytes tokens := by
  rw [discard_eq_bind]
  refine (h.bind fun _ => takes_pure ()).congr fun _ bytes tokens => ?_
  constructor
  · intro hr
    obtain ⟨a, u, s, _, _, hu, ⟨-, rfl, rfl⟩, rfl, rfl⟩ := hr
    rw [List.append_nil, List.append_nil]
    exact ⟨a, hu⟩
  · intro hr
    obtain ⟨a, hu⟩ := hr
    exact ⟨a, bytes, tokens, [], [], hu, ⟨rfl, rfl, rfl⟩, (List.append_nil _).symm,
      (List.append_nil _).symm⟩

theorem takes_ofCursor {read : Cursor → Except Failure (α × Cursor)} {moved : α → Bytes → Prop}
    (h : ∀ c a d, read c = .ok (a, d) ↔ ∃ bytes, moved a bytes ∧ c.Moves bytes d) :
    Takes (ofCursor read) fun a bytes tokens => moved a bytes ∧ tokens = [] := by
  intro p a q
  have hrun : ofCursor read p = .ok a q ↔ read p.cursor = .ok (a, q.cursor) ∧ q.asm = p.asm := by
    obtain ⟨cursor, asm⟩ := q
    simp only [ofCursor]
    cases read p.cursor with
    | error e => simp
    | ok r => simp [Prod.ext_iff, eq_comm, and_assoc]
  rw [hrun, h]
  constructor
  · intro hr
    obtain ⟨⟨bytes, hm, hd⟩, ha⟩ := hr
    refine ⟨bytes, [], ⟨hm, rfl⟩, hd, ?_⟩
    rw [ha, List.append_nil]
  · intro hr
    obtain ⟨bytes, _, ⟨hm, rfl⟩, hd, ha⟩ := hr
    rw [List.append_nil] at ha
    exact ⟨⟨bytes, hm, hd⟩, congrArg Asm.mk ha⟩

theorem takes_bytes [DigitLimit] (n : Int) : Takes (bytes n) fun data bytes tokens =>
    ((data.length : Int) = n ∧ bytes = data) ∧ tokens = [] := by
  refine takes_ofCursor fun c data d => ?_
  rw [Cursor.read_eq_ok_iff]
  constructor
  · intro h
    exact ⟨data, ⟨h.1, rfl⟩, h.2⟩
  · intro h
    obtain ⟨_, ⟨hl, rfl⟩, hd⟩ := h
    exact ⟨hl, hd⟩

theorem takes_opcode :
    Takes opcode fun r bytes tokens => r.2 = .ofByte r.1 ∧ bytes = [r.1] ∧ tokens = [] := by
  have hnext : Takes (ofCursor Cursor.next) fun b bytes tokens => bytes = [b] ∧ tokens = [] :=
    takes_ofCursor fun c b d => by rw [Cursor.next_eq_ok_iff, exists_eq_left]
  refine (hnext.bind fun b => takes_pure (b, Opcode.ofByte b)).congr fun r bytes tokens => ?_
  constructor
  · intro h
    obtain ⟨b, _, _, _, _, ⟨rfl, rfl⟩, ⟨rfl, rfl, rfl⟩, rfl, rfl⟩ := h
    exact ⟨rfl, rfl, rfl⟩
  · intro h
    obtain ⟨b, op⟩ := r
    obtain ⟨hop, rfl, rfl⟩ := h
    exact ⟨b, [b], [], [], [], ⟨rfl, rfl⟩, ⟨congrArg _ hop, rfl, rfl⟩, rfl, rfl⟩

theorem takes_demand (result : Except Failure α) :
    Takes (demand result) fun a bytes tokens => result = .ok a ∧ bytes = [] ∧ tokens = [] := by
  cases result with
  | error e => exact (takes_throw e).congr fun a bytes tokens => by simp
  | ok b => exact (takes_pure b).congr fun a bytes tokens => by simp [eq_comm]

theorem takes_emit [DigitLimit] (op : Opcode) : Takes (emit op) fun _ bytes tokens =>
    ∃ name, op.mnemonic = .ok name ∧ bytes = [] ∧ tokens = [name] := by
  intro p a q
  simp only [emit, Asm.opcode]
  cases op.mnemonic with
  | error e => simp [Except.map]
  | ok name =>
    simp only [Except.map, EStateM.Result.ok.injEq, Except.ok.injEq, true_and]
    constructor
    · intro h
      obtain rfl := h
      exact ⟨[], [name], ⟨name, rfl, rfl, rfl⟩, ⟨rfl, rfl⟩, rfl⟩
    · intro h
      obtain ⟨_, _, ⟨_, rfl, rfl, rfl⟩, ⟨hu, hp⟩, ht⟩ := h
      exact Progress.ext_iff.2 ⟨hp.symm, hu, ht.symm⟩

theorem takes_emitBytes (data : Bytes) :
    Takes (emitBytes data) fun _ bytes tokens => bytes = [] ∧ tokens = [Hex.encode data] := by
  intro p a q
  simp only [emitBytes, EStateM.Result.ok.injEq, true_and]
  constructor
  · intro h
    obtain rfl := h
    exact ⟨[], [Hex.encode data], ⟨rfl, rfl⟩, ⟨rfl, rfl⟩, rfl⟩
  · intro h
    obtain ⟨_, _, ⟨rfl, rfl⟩, ⟨hu, hp⟩, ht⟩ := h
    exact Progress.ext_iff.2 ⟨hp.symm, hu, ht.symm⟩

theorem takes_payload [DigitLimit] (n : Int) : Takes (payload n) fun data bytes tokens =>
    (data.length : Int) = n ∧ bytes = data ∧ tokens = [Hex.encode data] := by
  refine ((takes_bytes n).bind fun data =>
    (takes_emitBytes data).bind fun _ => takes_pure data).congr fun data bytes tokens => ?_
  constructor
  · intro h
    obtain ⟨_, _, _, _, _, ⟨⟨hl, rfl⟩, rfl⟩, h, rfl, rfl⟩ := h
    obtain ⟨_, _, _, _, _, ⟨rfl, rfl⟩, ⟨rfl, rfl, rfl⟩, rfl, rfl⟩ := h
    exact ⟨hl, List.append_nil _, rfl⟩
  · intro h
    obtain ⟨hl, rfl, rfl⟩ := h
    exact ⟨_, _, [], [], _, ⟨⟨hl, rfl⟩, rfl⟩,
      ⟨(), [], _, [], [], ⟨rfl, rfl⟩, ⟨rfl, rfl, rfl⟩, rfl, rfl⟩, (List.append_nil _).symm, rfl⟩

theorem takes_expect [DigitLimit] (op : Opcode) : Takes (expect op) fun _ bytes tokens =>
    ∃ b name, Opcode.ofByte b = op ∧ op.mnemonic = .ok name ∧ bytes = [b] ∧ tokens = [name] := by
  have hfault (b : UInt8) : Takes
      (demand op.mnemonic >>= fun name => throw (.mismatch name b.toNat))
      fun (_ : Unit) _ _ => False :=
    ((takes_demand op.mnemonic).bind fun name => takes_throw _).congr fun _ _ _ => by simp
  have hnext (r : UInt8 × Opcode) : Takes (if r.2 = op then emit r.2
      else demand op.mnemonic >>= fun name => throw (.mismatch name r.1.toNat))
      fun _ bytes tokens => r.2 = op ∧
        ∃ name, op.mnemonic = .ok name ∧ bytes = [] ∧ tokens = [name] := by
    by_cases hr : r.2 = op
    · rw [if_pos hr, hr]
      exact (takes_emit op).congr fun _ _ _ => (and_iff_right rfl).symm
    · rw [if_neg hr]
      exact (hfault r.1).congr fun _ _ _ => by simp [hr]
  refine (takes_opcode.bind hnext).congr fun _ bytes tokens => ?_
  constructor
  · intro h
    obtain ⟨r, _, _, _, _, ⟨hb, rfl, rfl⟩, ⟨hop, name, hm, rfl, rfl⟩, rfl, rfl⟩ := h
    exact ⟨r.1, name, hb.symm.trans hop, hm, rfl, rfl⟩
  · intro h
    obtain ⟨b, name, hb, hm, rfl, rfl⟩ := h
    exact ⟨(b, op), [b], [], [], [name], ⟨hb.symm, rfl, rfl⟩, ⟨rfl, name, hm, rfl, rfl⟩, rfl, rfl⟩

theorem takes_named [DigitLimit] {kind : OpKind} {c : UInt8} {name : String} (hc : kind.byte? = some c)
    (hn : (Opcode.mk kind none).mnemonic = .ok name) :
    Takes (expect ⟨kind, none⟩) fun _ bytes tokens => bytes = [c] ∧ tokens = [name] := by
  refine (takes_expect ⟨kind, none⟩).congr fun _ bytes tokens => ?_
  constructor
  · intro h
    obtain ⟨b, name', hb, hm, rfl, rfl⟩ := h
    obtain rfl := Except.ok.inj (hm.symm.trans hn)
    rw [(Opcode.ofByte_named_iff hc).1 hb]
    exact ⟨rfl, rfl⟩
  · intro h
    obtain ⟨rfl, rfl⟩ := h
    exact ⟨c, name, Opcode.ofByte_named hc, hn, rfl, rfl⟩

theorem takes_push [DigitLimit] (n : Int) : Takes (push n) fun data bytes tokens =>
    (data.length : Int) = n ∧ 1 ≤ n ∧ n ≤ Opcode.longestPush ∧
      bytes = Standard.pushed data ∧ tokens = Standard.pushTokens data := by
  refine ((takes_demand (Opcode.push n)).bind fun op =>
    (takes_expect op).bind fun _ => takes_payload n).congr fun data bytes tokens => ?_
  constructor
  · intro h
    obtain ⟨op, _, _, _, _, ⟨hp, rfl, rfl⟩, h, rfl, rfl⟩ := h
    obtain ⟨_, _, _, _, _, ⟨b, name, hb, hm, rfl, rfl⟩, ⟨hl, rfl, rfl⟩, rfl, rfl⟩ := h
    obtain ⟨h1, h2, rfl⟩ := Opcode.push_eq_ok_iff.1 hp
    obtain rfl := Except.ok.inj (hm.symm.trans (Opcode.mnemonic_pushed hb))
    subst hl
    obtain ⟨-, -, rfl⟩ := Opcode.ofByte_pushed_iff.1 hb
    exact ⟨rfl, h1, h2, rfl, rfl⟩
  · intro h
    obtain ⟨hl, h1, h2, rfl, rfl⟩ := h
    subst hl
    have hb : Opcode.ofByte (UInt8.ofNat data.length) = ⟨.push, some (data.length : Int)⟩ := by
      simp only [Opcode.longestPush] at h2
      exact Opcode.ofByte_pushed_iff.2 ⟨by omega, by omega, rfl⟩
    exact ⟨_, [], [], _, _, ⟨Opcode.push_eq_ok_iff.2 ⟨h1, h2, rfl⟩, rfl, rfl⟩,
      ⟨(), _, _, data, _, ⟨_, _, hb, Opcode.mnemonic_pushed hb, rfl, rfl⟩, ⟨rfl, rfl, rfl⟩,
        rfl, rfl⟩, rfl, rfl⟩

end Decoder

end CoinWire.Script
