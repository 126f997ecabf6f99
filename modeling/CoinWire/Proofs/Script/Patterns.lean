import CoinWire.Proofs.Script.Stops

/-!
What a pattern does with any unread bytes. Either they begin with one match for each of its steps, or some
step is the first that matches nothing there, and this step alone decides the failure and how far it went.
-/

namespace CoinWire.Script

/-- What comes of a step that matches nothing: its failure, with the bytes it has read and the tokens it has
shown by then. -/
structure Miss where
  failure : Failure
  read : Bytes
  shown : List String
  deriving DecidableEq, Repr

variable [DigitLimit]

/-- What comes of an opcode that is not there. Behind another byte its mnemonic is asked for, and where it has
none the reason is the failure: no opcode of a byte is so, but an expected one can be any. -/
def Opcode.miss (op : Opcode) (position : Nat) : Bytes → Miss
  | [] => ⟨.unexpectedEnd 1 position 0, [], []⟩
  | b :: _ =>
    if op.kind = .unsupported then ⟨.noMnemonic, [b], []⟩
    else match op.overlong? with
      | some n => ⟨.tooLong n, [b], []⟩
      | none => ⟨.mismatch op.label b.toNat, [b], []⟩

namespace Step

def Absent (step : Step) (unread : Bytes) : Prop :=
  ∀ bytes tokens rest, step.Matches bytes tokens → unread ≠ bytes ++ rest

def pushMiss (n : Int) (position : Nat) : Bytes → Miss
  | [] => Opcode.miss ⟨.push, some n⟩ position []
  | b :: data =>
    if (b.toNat : Int) = n then
      ⟨.unexpectedEnd n (position + 1 : Nat) data.length, [b], ["OP_PUSHBYTES_" ++ toString n]⟩
    else Opcode.miss ⟨.push, some n⟩ position (b :: data)

/-- The length of a push is checked before anything is read. -/
def miss (position : Nat) (unread : Bytes) : Step → Miss
  | .opcode op => op.miss position unread
  | .push n =>
    if 1 ≤ n ∧ n ≤ Opcode.longestPush then pushMiss n position unread
    else ⟨.pushLength n, [], []⟩

variable {step : Step} {op : Opcode} {n : Int} {b : UInt8} {unread data : Bytes} {position : Nat}
  {c : Cursor}

theorem Absent.ofByte_ne (h : (Step.opcode op).Absent (b :: data)) {name : String}
    (hm : op.mnemonic = .ok name) : Opcode.ofByte b ≠ op := by
  intro hb
  exact h [b] [name] data ⟨b, name, hb, hm, rfl, rfl⟩ rfl

theorem Absent.length_lt (h : (Step.push n).Absent (b :: data)) (hn : 1 ≤ n ∧ n ≤ Opcode.longestPush)
    (hb : (b.toNat : Int) = n) : (data.length : Int) < n := by
  apply Int.not_le.1
  intro hlong
  have hle : b.toNat ≤ data.length := by
    omega
  have htake : (data.take b.toNat).length = b.toNat := List.length_take_of_le hle
  apply h _ _ (data.drop b.toNat)
    ⟨data.take b.toNat, (congrArg _ htake).trans hb, hn.1, hn.2, rfl, rfl⟩
  rw [Standard.pushed, htake, UInt8.ofNat_toNat, List.cons_append, List.take_append_drop]

theorem misses_nil (hp : c.position = position) (hu : c.unread = []) :
    Misses op (.unexpectedEnd 1 position 0) [] [] c :=
  .short (Cursor.lacks_of_unread hp hu Int.one_pos)

theorem misses_cons (h : ∀ {name}, op.mnemonic = .ok name → Opcode.ofByte b ≠ op) :
    Misses op (op.miss position (b :: data)).failure (op.miss position (b :: data)).read
      (op.miss position (b :: data)).shown c := by
  rw [Opcode.miss]
  by_cases hk : op.kind = .unsupported
  · rw [if_pos hk]
    exact .unnamed (Opcode.mnemonic_eq_error_iff.2 (.inl ⟨hk, rfl⟩))
  · rw [if_neg hk]
    cases hn : op.overlong? with
    | some n => exact .unnamed (Opcode.mnemonic_eq_error_iff.2 (.inr ⟨n, hn, rfl⟩))
    | none =>
      obtain ⟨name, hname⟩ := Opcode.exists_mnemonic hk hn
      rw [Opcode.label, hname]
      exact .other (h hname) hname

theorem Absent.fails_push (h : (Step.push n).Absent unread) (hn : 1 ≤ n ∧ n ≤ Opcode.longestPush)
    (hp : c.position = position + (pushMiss n position unread).read.length)
    (hu : unread = (pushMiss n position unread).read ++ c.unread) :
    (Step.push n).Fails (pushMiss n position unread).failure (pushMiss n position unread).read
      (pushMiss n position unread).shown c := by
  cases unread with
  | nil => exact .pushOpcode hn (misses_nil hp hu.symm)
  | cons b data =>
    rw [pushMiss] at hp hu ⊢
    by_cases hb : (b.toNat : Int) = n
    · rw [if_pos hb] at hp hu ⊢
      have hdata : c.unread = data := (List.cons.inj hu).2.symm
      exact .data (Opcode.ofByte_push_iff.2 ⟨hn.1, hn.2, hb⟩)
        (Cursor.lacks_of_unread hp hdata (h.length_lt hn hb))
    · rw [if_neg hb]
      apply Fails.pushOpcode hn
      apply misses_cons
      intro _ _ he
      exact hb (Opcode.ofByte_push_iff.1 he).2.2

theorem Absent.fails (h : step.Absent unread)
    (hp : c.position = position + (step.miss position unread).read.length)
    (hu : unread = (step.miss position unread).read ++ c.unread) :
    step.Fails (step.miss position unread).failure (step.miss position unread).read
      (step.miss position unread).shown c := by
  cases step with
  | opcode op =>
    cases unread with
    | nil => exact .opcode (misses_nil hp hu.symm)
    | cons b data =>
      rw [miss]
      exact .opcode (misses_cons h.ofByte_ne)
  | push n =>
    rw [miss] at hp hu ⊢
    by_cases hn : 1 ≤ n ∧ n ≤ Opcode.longestPush
    · rw [if_pos hn] at hp hu ⊢
      exact h.fails_push hn hp hu
    · rw [if_neg hn]
      exact .length hn

theorem opcode_read_prefix (op : Opcode) (position : Nat) (unread : Bytes) :
    (op.miss position unread).read <+: unread := by
  cases unread with
  | nil => exact List.nil_prefix
  | cons b data =>
    rw [Opcode.miss]
    split
    · exact ⟨data, rfl⟩
    · split <;> exact ⟨data, rfl⟩

theorem read_miss_prefix (step : Step) (position : Nat) (unread : Bytes) :
    (step.miss position unread).read <+: unread := by
  cases step with
  | opcode op => exact opcode_read_prefix op position unread
  | push n =>
    rw [miss]
    split
    · cases unread with
      | nil => exact List.nil_prefix
      | cons b data =>
        rw [pushMiss]
        split
        · exact ⟨data, rfl⟩
        · exact opcode_read_prefix _ position (b :: data)
    · exact List.nil_prefix

end Step

namespace Pattern

variable {pattern front back : Pattern} {step : Step} {e : Failure} {unread bytes rest u v : Bytes}
  {tokens s t : List String} {c : Cursor}

/-- The steps in front of `step` match the bytes, and it is the first to match nothing, in front of the
rest. -/
structure FirstMiss (pattern : Pattern) (unread bytes : Bytes) (tokens : List String) (step : Step)
    (rest : Bytes) : Prop where
  steps : ∃ front back, pattern = front ++ step :: back ∧ front.Matches bytes tokens
  split : unread = bytes ++ rest
  absent : step.Absent rest

theorem FirstMiss.cons {first : Step} (hu : first.Matches u s)
    (h : pattern.FirstMiss unread bytes tokens step rest) :
    FirstMiss (first :: pattern) (u ++ unread) (u ++ bytes) (s ++ tokens) step rest := by
  obtain ⟨front, back, rfl, hfront⟩ := h.steps
  refine ⟨⟨first :: front, back, rfl, u, s, bytes, tokens, hu, hfront, rfl, rfl⟩, ?_, h.absent⟩
  rw [h.split, List.append_assoc]

theorem matches_or_firstMiss (pattern : Pattern) (unread : Bytes) :
    (∃ bytes tokens rest, pattern.Matches bytes tokens ∧ unread = bytes ++ rest) ∨
      ∃ bytes tokens step rest, pattern.FirstMiss unread bytes tokens step rest := by
  induction pattern generalizing unread with
  | nil => exact .inl ⟨[], [], unread, ⟨rfl, rfl⟩, rfl⟩
  | cons first pattern ih =>
    by_cases hfirst : first.Absent unread
    · exact .inr ⟨[], [], first, unread, ⟨[], pattern, rfl, rfl, rfl⟩, rfl, hfirst⟩
    · simp only [Step.Absent, not_forall, not_not] at hfirst
      obtain ⟨u, s, behind, hu, rfl⟩ := hfirst
      obtain ⟨v, t, rest, hv, rfl⟩ | ⟨bytes, tokens, step, rest, hmiss⟩ := ih behind
      · refine .inl ⟨u ++ v, s ++ t, rest, ⟨u, s, v, t, hu, hv, rfl, rfl⟩, ?_⟩
        rw [List.append_assoc]
      · exact .inr ⟨_, _, step, rest, hmiss.cons hu⟩

theorem Fails.behind (hm : front.Matches u s) (h : step.Fails e v t c) :
    Fails (front ++ step :: back) e (u ++ v) (s ++ t) c := by
  induction front generalizing u s with
  | nil =>
    obtain ⟨rfl, rfl⟩ := hm
    exact .here h
  | cons first front ih =>
    obtain ⟨u, s, u', s', hu, hm, rfl, rfl⟩ := hm
    rw [List.append_assoc, List.append_assoc]
    exact .later hu (ih hm)

theorem FirstMiss.decode {p : Progress}
    (h : pattern.FirstMiss p.cursor.unread bytes tokens step rest) :
    let miss := step.miss (p.cursor.position + bytes.length) rest
    pattern.decode p = .error miss.failure
      (p.after (bytes ++ miss.read) (tokens ++ miss.shown) (rest.drop miss.read.length)) := by
  intro miss
  obtain ⟨front, back, rfl, hfront⟩ := h.steps
  have hrest : rest = miss.read ++ rest.drop miss.read.length :=
    (List.prefix_iff_eq_append.1 (step.read_miss_prefix _ rest)).symm
  apply (Pattern.fails_decode _).run
  · apply Fails.behind hfront
    apply h.absent.fails
    · rw [Progress.position_after, List.length_append, ← Nat.add_assoc]
    · exact hrest
  · rw [h.split, List.append_assoc, ← hrest]

/-- All that a pattern can come to, under any limit on digits or none. -/
theorem decode_decided (pattern : Pattern) (p : Progress) :
    (∀ q, pattern.decode p = .ok () q ↔ ∃ bytes tokens rest, pattern.Matches bytes tokens ∧
      p.cursor.unread = bytes ++ rest ∧ q = p.after bytes tokens rest) ∧
    ((∃ q, pattern.decode p = .ok () q) ∨
      ∃ bytes tokens step rest, pattern.FirstMiss p.cursor.unread bytes tokens step rest) ∧
    ∀ bytes tokens step rest, pattern.FirstMiss p.cursor.unread bytes tokens step rest →
      let miss := step.miss (p.cursor.position + bytes.length) rest
      pattern.decode p = .error miss.failure
        (p.after (bytes ++ miss.read) (tokens ++ miss.shown) (rest.drop miss.read.length)) := by
  refine ⟨?_, ?_, ?_⟩
  · intro q
    rw [Pattern.takes_decode pattern p () q]
    constructor
    · intro h
      obtain ⟨bytes, tokens, hm, hq⟩ := h
      exact ⟨bytes, tokens, q.cursor.unread, hm, hq.1.1, hq.eq_after⟩
    · intro h
      obtain ⟨bytes, tokens, rest, hm, hu, rfl⟩ := h
      exact ⟨bytes, tokens, hm, Progress.advances_after hu⟩
  · apply (matches_or_firstMiss pattern p.cursor.unread).imp_left
    intro h
    obtain ⟨bytes, tokens, rest, hm, hu⟩ := h
    exact ⟨_, (Pattern.takes_decode pattern).run hm hu⟩
  · intro bytes tokens step rest h
    exact h.decode

/-- A push of impossible length is refused in front of its opcode. -/
example : Pattern.decode [.opcode ⟨.dup, none⟩, .push 76] (.start [0x76, 0x4c]) =
    .error (.pushLength 76) ⟨⟨[0x76], [0x4c]⟩, ⟨["OP_DUP"]⟩⟩ := by
  rfl

end Pattern

end CoinWire.Script
