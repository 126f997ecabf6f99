import CoinWire.Proofs.Outcome
import CoinWire.Wire.Stream

/-!
Readers against the written forms they take. A reader takes a written form when it succeeds exactly where
such a form is next, and then consumes the form and nothing behind it.

The property passes through sequencing and counted repetition, so that the written form of a record is
the concatenation of the forms of its fields. A reader that has it never looks ahead: what it has read once
it reads again, whatever stands behind.
-/

namespace CoinWire

namespace Wire.Stream

def skip (s : Stream) (count : Nat) : Stream := { s with position := s.position + count }

theorem unread_skip {s : Stream} {w rest : Bytes} (h : s.unread = w ++ rest) :
    (s.skip w.length).unread = rest := by
  rw [unread] at h
  rw [unread, skip, ← List.drop_drop, h, List.drop_left' rfl]

end Wire.Stream

namespace Wire.Reader

variable {α β : Type}

/-- Here `written a w` says that the bytes `w` are a form of `a`. -/
def Takes (reader : Reader α) (written : α → Bytes → Prop) : Prop :=
  ∀ unread a rest, reader unread = .ok a rest ↔ ∃ w, written a w ∧ unread = w ++ rest

section Takes

variable {reader : Reader α} {written : α → Bytes → Prop}

theorem Takes.append (h : Takes reader written) {a : α} {w : Bytes} (hw : written a w)
    (rest : Bytes) : reader (w ++ rest) = .ok a rest :=
  (h _ _ _).2 ⟨w, hw, rfl⟩

theorem Takes.congr {other : α → Bytes → Prop} (h : Takes reader written)
    (hw : ∀ a w, written a w ↔ other a w) : Takes reader other := by
  intro unread a rest
  rw [h unread a rest]
  simp only [hw]

theorem takes_pure (a : α) : Takes (pure a) fun b w => b = a ∧ w = [] := by
  intro unread b rest
  simp only [pure, EStateM.pure, EStateM.Result.ok.injEq]
  constructor
  · intro h
    obtain ⟨rfl, rfl⟩ := h
    exact ⟨[], ⟨rfl, rfl⟩, rfl⟩
  · intro h
    obtain ⟨w, ⟨rfl, rfl⟩, rfl⟩ := h
    exact ⟨rfl, rfl⟩

theorem takes_throw (e : Failure) : Takes (throw e : Reader α) fun _ _ => False := by
  intro unread a rest
  constructor
  · intro h
    cases h
  · intro h
    obtain ⟨_, hf, -⟩ := h
    exact hf.elim

theorem Takes.ite {c : Prop} [Decidable c] (h : Takes reader written) {other : Reader α}
    {writtenOther : α → Bytes → Prop} (ho : Takes other writtenOther) :
    Takes (if c then reader else other) fun a w => if c then written a w else writtenOther a w := by
  by_cases hc : c
  · simpa only [if_pos hc] using h
  · simpa only [if_neg hc] using ho

theorem Takes.bind (h : Takes reader written) {next : α → Reader β}
    {following : α → β → Bytes → Prop} (hn : ∀ a, Takes (next a) (following a)) :
    Takes (reader >>= next) fun b w =>
      ∃ a u v, written a u ∧ following a b v ∧ w = u ++ v := by
  intro unread b rest
  rw [run_bind_eq_ok_iff]
  constructor
  · intro hr
    obtain ⟨a, between, ha, hb⟩ := hr
    obtain ⟨u, hu, rfl⟩ := (h _ _ _).1 ha
    obtain ⟨v, hv, rfl⟩ := (hn a _ _ _).1 hb
    exact ⟨u ++ v, ⟨a, u, v, hu, hv, rfl⟩, (List.append_assoc ..).symm⟩
  · intro hr
    obtain ⟨w, ⟨a, u, v, hu, hv, rfl⟩, rfl⟩ := hr
    refine ⟨a, v ++ rest, ?_, (hn a).append hv rest⟩
    rw [List.append_assoc]
    exact h.append hu (v ++ rest)

theorem Takes.map (h : Takes reader written) (f : α → β) :
    Takes (do pure (f (← reader))) fun b w => ∃ a, b = f a ∧ written a w := by
  refine (h.bind fun a => takes_pure (f a)).congr fun b w => ?_
  constructor
  · intro hw
    obtain ⟨a, u, _, hu, ⟨rfl, rfl⟩, rfl⟩ := hw
    rw [List.append_nil]
    exact ⟨a, rfl, hu⟩
  · intro hw
    obtain ⟨a, rfl, hw⟩ := hw
    exact ⟨a, w, [], hw, ⟨rfl, rfl⟩, (List.append_nil w).symm⟩

theorem takes_bytes (length : Int) (label : String) :
    Takes (bytes length label) fun got w =>
      (got.length : Int) = length ∧ length < lengthBound ∧ w = got := by
  intro unread got rest
  constructor
  · intro h
    obtain ⟨rfl, hl⟩ := bytes_ok h
    refine ⟨got, ⟨hl, ?_, rfl⟩, rfl⟩
    by_contra hb
    simp [bytes, Int.not_lt.1 hb] at h
  · intro h
    obtain ⟨w, ⟨rfl, hb, rfl⟩, rfl⟩ := h
    exact bytes_append w rest label hb

theorem Takes.many (h : Takes reader written) (count : Nat) :
    Takes (many count reader) fun found w =>
      found.length = count ∧ ∃ ws, List.Forall₂ written found ws ∧ w = ws.flatten := by
  induction count with
  | zero =>
    refine (takes_pure []).congr fun found w => ?_
    constructor
    · intro hw
      obtain ⟨rfl, rfl⟩ := hw
      exact ⟨rfl, [], .nil, rfl⟩
    · intro hw
      obtain ⟨hl, ws, hws, rfl⟩ := hw
      obtain rfl := List.length_eq_zero_iff.1 hl
      obtain rfl := List.forall₂_nil_left_iff.1 hws
      exact ⟨rfl, rfl⟩
  | succ count ih =>
    rw [many_succ]
    refine (h.bind fun a => ih.bind fun found => takes_pure (a :: found)).congr fun all w => ?_
    constructor
    · intro hw
      obtain ⟨a, u, _, hu, ⟨found, _, _, ⟨hl, ws, hws, rfl⟩, ⟨rfl, rfl⟩, rfl⟩, rfl⟩ := hw
      exact ⟨congrArg (· + 1) hl, u :: ws, .cons hu hws, by simp⟩
    · intro hw
      obtain ⟨hl, all', hall, rfl⟩ := hw
      cases hall with
      | nil => simp at hl
      | @cons a u found ws hu hws =>
        refine ⟨a, u, ws.flatten, hu,
          ⟨found, ws.flatten, [], ⟨?_, ws, hws, rfl⟩, ⟨rfl, rfl⟩, ?_⟩, rfl⟩
        · exact Nat.succ.inj hl
        · exact (List.append_nil _).symm

/-- On a stream the position moves by the written form, wherever it stands. -/
theorem Takes.run_iff (h : Takes reader written) {s t : Stream} {a : α} :
    s.run reader = (.ok a, t) ↔
      ∃ w rest, written a w ∧ s.unread = w ++ rest ∧ t = s.skip w.length := by
  have hrun : s.run reader = (.ok a, t) ↔
      ∃ rest, reader s.unread = .ok a rest ∧ t = s.skip (s.unread.length - rest.length) := by
    simp only [Stream.run, Stream.skip]
    cases reader s.unread with
    | error e rest => simp
    | ok b rest => simp [eq_comm, and_assoc]
  rw [hrun]
  constructor
  · intro hr
    obtain ⟨rest, hr, rfl⟩ := hr
    obtain ⟨w, hw, hu⟩ := (h _ _ _).1 hr
    refine ⟨w, rest, hw, hu, ?_⟩
    rw [hu, List.length_append, Nat.add_sub_cancel]
  · intro hw
    obtain ⟨w, rest, hw, hu, rfl⟩ := hw
    refine ⟨rest, (h _ _ _).2 ⟨w, hw, hu⟩, ?_⟩
    rw [hu, List.length_append, Nat.add_sub_cancel]

theorem Takes.run_eq_ok_iff (h : Takes reader written) {bytes : Bytes} {a : α} {k : Nat} :
    (Stream.mk bytes 0).run reader = (.ok a, ⟨bytes, k⟩) ↔
      k ≤ bytes.length ∧ written a (bytes.take k) := by
  rw [h.run_iff]
  simp only [Stream.unread, Stream.skip, List.drop_zero, Nat.zero_add, Stream.mk.injEq, true_and]
  constructor
  · intro hw
    obtain ⟨w, rest, hw, rfl, rfl⟩ := hw
    rw [List.length_append, List.take_left' rfl]
    exact ⟨Nat.le_add_right .., hw⟩
  · intro hk
    obtain ⟨hk, hw⟩ := hk
    exact ⟨_, _, hw, (List.take_append_drop ..).symm, (List.length_take_of_le hk).symm⟩

/-- Elements that are written by an encoder, and of which a reader takes only some. -/
theorem Takes.many_encoded {fit : α → Prop} {encode : α → Except Failure Bytes}
    (h : Takes reader fun a w => fit a ∧ encode a = .ok w) (count : Nat) :
    Takes (Reader.many count reader) fun found w =>
      found.length = count ∧ (∀ a ∈ found, fit a) ∧
        ∃ ws, found.mapM encode = .ok ws ∧ w = ws.flatten := by
  refine (h.many count).congr fun found w => ?_
  simp only [List.forall₂_and_left, mapM_eq_ok_iff, and_assoc, exists_and_left]

end Takes

end Wire.Reader

end CoinWire
