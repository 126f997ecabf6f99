import CoinWire.Proofs.Wire.Refusal

/-!
Written forms that show where they end: wherever two of them stand in front of equal bytes, what they are
forms of is equal, and what follows them is. Numbers and sizes have such forms, and so have data and lists
with their size or count in front. A list without a count is known from its forms only where nothing else
follows.

Whatever a reader takes is of this kind, and so a form that is cut short is refused.
-/

namespace CoinWire.Wire

variable {α : Type} {written : α → Bytes → Prop}

def Delimited (written : α → Bytes → Prop) : Prop :=
  ∀ ⦃a b : α⦄ ⦃u v r s : Bytes⦄, written a u → written b v → u ++ r = v ++ s → a = b ∧ r = s

namespace Reader

variable {reader : Reader α} {oversized : Bytes → Prop} {a : α}

theorem Takes.delimited (h : Takes reader written) : Delimited written := by
  intro a b u v r s ha hb he
  have hr := h.append ha r
  rw [he, h.append hb s] at hr
  obtain ⟨rfl, rfl⟩ := EStateM.Result.ok.inj hr
  exact ⟨rfl, rfl⟩

theorem Takes.cut (h : Takes reader written) {w : Bytes} (hw : written a w) {j : Nat}
    (hj : j < w.length) : ∃ e rest, reader (w.take j) = .error e rest := by
  cases hr : reader (w.take j) with
  | error e rest => exact ⟨e, rest, rfl⟩
  | ok b rest =>
    -- a form in front of the cut would end before the form of `a` does
    obtain ⟨u, hu, hcut⟩ := (h _ _ _).1 hr
    have he : u ++ (rest ++ w.drop j) = w ++ [] := by
      rw [← List.append_assoc, ← hcut, List.take_append_drop, List.append_nil]
    obtain ⟨-, hnil⟩ := h.delimited hu hw he
    have hl := congrArg List.length hnil
    simp only [List.length_append, List.length_drop, List.length_nil] at hl
    omega

/-- No length that a read cannot take is met in a form, nor in front of a cut. -/
theorem Refuses.cut (h : Refuses reader oversized) (ht : Takes reader written) {w : Bytes}
    (hw : written a w) {j : Nat} (hj : j < w.length) :
    ∃ e rest, reader (w.take j) = .error e rest ∧ Family.read ∈ e.families := by
  obtain ⟨e, rest, hr⟩ := ht.cut hw hj
  refine ⟨e, rest, hr, h.read hr ?_⟩
  intro he
  subst he
  obtain ⟨u, hu, hcut⟩ := h.overflow.1 hr
  have hover : reader w = .error .lengthOverflow (rest ++ w.drop j) := by
    refine h.overflow.2 ⟨u, hu, ?_⟩
    rw [← List.append_assoc, ← hcut, List.take_append_drop]
  have hok := ht.append hw []
  rw [List.append_nil, hover] at hok
  cases hok

theorem Refuses.run_delimited (h : Refuses reader oversized) (ht : Takes reader written) {bytes : Bytes}
    {k : Nat} (hr : (Stream.mk bytes 0).run reader = (.ok a, ⟨bytes, k⟩)) :
    (∀ j < k, ∃ e s, (Stream.mk (bytes.take j) 0).run reader = (.error e, s) ∧
      Family.read ∈ e.families) ∧
    ∀ more, (Stream.mk (bytes.take k ++ more) 0).run reader = (.ok a, ⟨bytes.take k ++ more, k⟩) := by
  obtain ⟨hk, hw⟩ := ht.run_eq_ok_iff.1 hr
  have hlen : (bytes.take k).length = k := List.length_take_of_le hk
  constructor
  · intro j hj
    obtain ⟨e, rest, hcut, he⟩ := h.cut ht hw (Nat.lt_of_lt_of_eq hj hlen.symm)
    rw [List.take_take, Nat.min_eq_left (Nat.le_of_lt hj)] at hcut
    have hrun : ∃ s, (Stream.mk (bytes.take j) 0).run reader = (.error e, s) := by
      simp only [Stream.run, Stream.unread, List.drop_zero, hcut]
      exact ⟨_, rfl⟩
    obtain ⟨s, hs⟩ := hrun
    exact ⟨e, s, hs, he⟩
  · intro more
    refine ht.run_eq_ok_iff.2 ⟨?_, ?_⟩
    · rw [List.length_append, hlen]
      exact Nat.le_add_right ..
    · rwa [List.take_left' hlen]

end Reader

theorem Number.delimited_encode (width : Nat) :
    Delimited fun (n : Int) w => Number.encode width n = .ok w := by
  intro a b u v r s ha hb he
  obtain ⟨m, rfl, hm, rfl⟩ := encode_ok ha
  obtain ⟨n, rfl, hn, rfl⟩ := encode_ok hb
  obtain ⟨hw, rfl⟩ := List.append_inj he (by rw [length_toLittle, length_toLittle])
  have hmn := congrArg ofLittle hw
  rw [ofLittle_toLittle hm, ofLittle_toLittle hn] at hmn
  exact ⟨congrArg _ hmn, rfl⟩

namespace Delimited

theorem inj (h : Delimited written) {a b : α} {w : Bytes} (ha : written a w) (hb : written b w) :
    a = b :=
  (h ha hb (rfl : w ++ [] = w ++ [])).1

/-- As many elements on both sides, whatever follows them. -/
theorem flatten_append (h : Delimited written) {as bs : List α} {us vs : List Bytes} {r s : Bytes}
    (ha : List.Forall₂ written as us) (hb : List.Forall₂ written bs vs)
    (hl : as.length = bs.length) (he : us.flatten ++ r = vs.flatten ++ s) : as = bs ∧ r = s := by
  induction ha generalizing bs vs with
  | nil =>
    cases hb with
    | nil => exact ⟨rfl, he⟩
    | cons hv hvs => cases hl
  | cons hu hus ih =>
    cases hb with
    | nil => cases hl
    | cons hv hvs =>
      simp only [List.flatten_cons, List.append_assoc] at he
      obtain ⟨rfl, hrest⟩ := h hu hv he
      obtain ⟨rfl, rfl⟩ := ih hvs (Nat.succ.inj hl) hrest
      exact ⟨rfl, rfl⟩

/-- No form is empty, so that none is missing where the bytes end. -/
theorem flatten (h : Delimited written) (hne : ∀ a, ¬ written a []) {as bs : List α}
    {us vs : List Bytes} (ha : List.Forall₂ written as us) (hb : List.Forall₂ written bs vs)
    (he : us.flatten = vs.flatten) : as = bs := by
  induction ha generalizing bs vs with
  | nil =>
    cases hb with
    | nil => rfl
    | cons hv hvs =>
      obtain ⟨rfl, -⟩ := List.append_eq_nil_iff.1 he.symm
      exact absurd hv (hne _)
  | cons hu hus ih =>
    cases hb with
    | nil =>
      obtain ⟨rfl, -⟩ := List.append_eq_nil_iff.1 he
      exact absurd hu (hne _)
    | cons hv hvs =>
      obtain ⟨rfl, hrest⟩ := h hu hv he
      rw [ih hvs hrest]

end Delimited

namespace CompactSize

theorem delimited_encode : Delimited fun (n : Nat) w => encode n = .ok w :=
  takes_read.delimited

theorem delimited_sized : Delimited fun (data w : Bytes) =>
    ∃ size, encode data.length = .ok size ∧ w = size ++ data := by
  intro a b u v r s ha hb he
  obtain ⟨m, hm, rfl⟩ := ha
  obtain ⟨n, hn, rfl⟩ := hb
  rw [List.append_assoc, List.append_assoc] at he
  obtain ⟨hl, hdata⟩ := delimited_encode hm hn he
  exact List.append_inj hdata hl

theorem delimited_listed (h : Delimited written) : Delimited (Listed written) := by
  intro as bs u v r s ha hb he
  obtain ⟨m, us, hm, hus, rfl⟩ := ha
  obtain ⟨n, vs, hn, hvs, rfl⟩ := hb
  rw [List.append_assoc, List.append_assoc] at he
  obtain ⟨hl, hlist⟩ := delimited_encode hm hn he
  exact h.flatten_append hus hvs hl hlist

end CompactSize

end CoinWire.Wire
