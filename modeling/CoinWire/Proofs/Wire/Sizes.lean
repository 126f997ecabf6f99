import CoinWire.Proofs.Wire.WrittenForm
import CoinWire.Wire.CompactSize

/-!
Numbers of fixed width and compact sizes are read from exactly the bytes they are written to. A number is
compact in one form only, the narrowest that holds it, and a size other than zero starts with a byte other
than zero.
-/

namespace CoinWire.Wire

open Reader (Takes takes_bytes takes_pure takes_throw)

namespace Number

theorem length_of_encode {width : Nat} {n : Int} {w : Bytes} (h : encode width n = .ok w) :
    w.length = width := by
  obtain ⟨m, -, -, rfl⟩ := encode_ok h
  exact length_toLittle width m

theorem takes_read (width : Nat) (hw : (width : Int) < Reader.lengthBound) (label : String) :
    Takes (read width label) fun n w => encode width n = .ok w := by
  refine ((takes_bytes width label).bind fun got => takes_pure (ofLittle got)).congr fun n w => ?_
  constructor
  · intro h
    obtain ⟨_, got, _, ⟨hl, -, rfl⟩, ⟨rfl, rfl⟩, rfl⟩ := h
    obtain rfl : got.length = width := Int.ofNat_inj.1 hl
    rw [encode_ofNat (ofLittle_lt got), toLittle_ofLittle, List.append_nil]
  · intro h
    obtain ⟨m, hn, hm, rfl⟩ := encode_ok h
    obtain rfl : n = m := Int.ofNat_inj.1 hn
    refine ⟨toLittle width n, _, [], ⟨?_, hw, rfl⟩, ⟨?_, rfl⟩, (List.append_nil _).symm⟩
    · rw [length_toLittle]
    · exact (ofLittle_toLittle hm).symm

end Number

namespace CompactSize

/-- The compact form of a number, told by where the number lies. -/
def Written (n : Nat) (w : Bytes) : Prop :=
  (n < 0xfd ∧ w = [UInt8.ofNat n]) ∨
    ∃ form ∈ forms, form.least ≤ n ∧ n < capacity form.width ∧
      w = UInt8.ofNat form.marker :: toLittle form.width n

theorem mem_forms {form : Form} : form ∈ forms ↔
    form = ⟨0xfd, 2, 0xfd⟩ ∨ form = ⟨0xfe, 4, 0x10000⟩ ∨ form = ⟨0xff, 8, 0x100000000⟩ := by
  simp only [forms, List.mem_cons, List.not_mem_nil, or_false]

/-- The narrowest form wide enough is the one whose range holds the number: the ranges meet without gap or
overlap. -/
theorem find_form_iff {n : Nat} (hn : 0xfd ≤ n) {form : Form} :
    (forms.find? fun form => n < capacity form.width) = some form ↔
      form ∈ forms ∧ form.least ≤ n ∧ n < capacity form.width := by
  rw [mem_forms]
  simp only [forms, List.find?_cons, List.find?_nil]
  -- the forms are tried in this order
  by_cases h2 : n < capacity 2
  · simp only [h2, decide_true, Option.some.injEq]
    constructor
    · intro h
      subst h
      exact ⟨.inl rfl, hn, h2⟩
    · intro h
      obtain ⟨rfl | rfl | rfl, hl, -⟩ := h
      · rfl
      · exact absurd h2 (Nat.not_lt.2 hl)
      · exact absurd (Nat.lt_trans h2 (by decide)) (Nat.not_lt.2 hl)
  · by_cases h4 : n < capacity 4
    · simp only [h2, h4, decide_true, decide_false, Option.some.injEq]
      constructor
      · intro h
        subst h
        exact ⟨.inr (.inl rfl), Nat.not_lt.1 h2, h4⟩
      · intro h
        obtain ⟨rfl | rfl | rfl, hl, hu⟩ := h
        · exact absurd hu h2
        · rfl
        · exact absurd h4 (Nat.not_lt.2 hl)
    · by_cases h8 : n < capacity 8
      · simp only [h2, h4, h8, decide_true, decide_false, Option.some.injEq]
        constructor
        · intro h
          subst h
          exact ⟨.inr (.inr rfl), Nat.not_lt.1 h4, h8⟩
        · intro h
          obtain ⟨rfl | rfl | rfl, -, hu⟩ := h
          · exact absurd hu h2
          · exact absurd hu h4
          · rfl
      · simp only [h2, h4, h8, decide_false, reduceCtorEq, false_iff]
        intro h
        obtain ⟨rfl | rfl | rfl, -, hu⟩ := h
        · exact h2 hu
        · exact h4 hu
        · exact h8 hu

theorem capacity_le {form : Form} (h : form ∈ forms) :
    capacity form.width ≤ 0x10000000000000000 := by
  obtain rfl | rfl | rfl := mem_forms.1 h
  · decide
  · decide
  · decide

theorem marker_lt {form : Form} (h : form ∈ forms) : form.marker < capacity 1 := by
  obtain rfl | rfl | rfl := mem_forms.1 h
  · decide
  · decide
  · decide

theorem form?_eq_some_iff {marker : Int} {form : Form} :
    form? marker = some form ↔ form ∈ forms ∧ marker = form.marker := by
  constructor
  · intro h
    have hm := List.find?_some h
    exact ⟨List.mem_of_find?_eq_some h, (of_decide_eq_true hm).symm⟩
  · intro h
    obtain ⟨hf, rfl⟩ := h
    obtain rfl | rfl | rfl := mem_forms.1 hf
    · rfl
    · rfl
    · rfl

theorem form?_eq_none_iff {marker : Nat} (hm : marker < 256) :
    form? marker = none ↔ marker < 0xfd := by
  rw [form?, List.find?_eq_none]
  simp only [mem_forms, decide_eq_true_eq, Int.ofNat_inj]
  constructor
  · intro h
    have h1 := h _ (.inl rfl)
    have h2 := h _ (.inr (.inl rfl))
    have h3 := h _ (.inr (.inr rfl))
    simp only at h1 h2 h3
    omega
  · intro h form hf he
    obtain rfl | rfl | rfl := hf
    · simp only at he
      omega
    · simp only at he
      omega
    · simp only at he
      omega

theorem encode_of_lt {n : Nat} (hn : n < 0xfd) : encode n = .ok [UInt8.ofNat n] := by
  rw [encode, if_neg (by simp only [largest]; omega), if_pos (by omega)]
  rfl

theorem encode_of_le {n : Nat} (hn : 0xfd ≤ n) {w : Bytes} :
    encode n = .ok w ↔ ∃ form, (forms.find? fun form => n < capacity form.width) = some form ∧
      w = UInt8.ofNat form.marker :: toLittle form.width n := by
  by_cases hb : largest < n
  · rw [encode, if_pos (.inr hb)]
    constructor
    · intro h
      cases h
    · intro h
      obtain ⟨form, hf, -⟩ := h
      obtain ⟨hm, -, hu⟩ := (find_form_iff hn).1 hf
      have hc := capacity_le hm
      simp only [largest] at hb
      omega
  · have hfind : (forms.find? fun form => (n : Int) < capacity form.width) =
        forms.find? fun form => n < capacity form.width := by
      simp only [Int.ofNat_lt]
    rw [encode, if_neg (by omega), if_neg (by omega), hfind]
    cases forms.find? fun form => n < capacity form.width with
    | none => simp
    | some form => simp [eq_comm]

theorem encode_eq_ok_iff {n : Nat} {w : Bytes} : encode n = .ok w ↔ Written n w := by
  by_cases hn : n < 0xfd
  · rw [encode_of_lt hn, Except.ok.injEq]
    constructor
    · intro h
      exact .inl ⟨hn, h.symm⟩
    · intro h
      obtain ⟨-, rfl⟩ | ⟨form, hf, hl, -⟩ := h
      · rfl
      · obtain rfl | rfl | rfl := mem_forms.1 hf
        · exact absurd hn (Nat.not_lt.2 hl)
        · exact absurd (Nat.lt_trans hn (by decide)) (Nat.not_lt.2 hl)
        · exact absurd (Nat.lt_trans hn (by decide)) (Nat.not_lt.2 hl)
  · have hle : 0xfd ≤ n := Nat.not_lt.1 hn
    rw [encode_of_le hle]
    constructor
    · intro h
      obtain ⟨form, hf, rfl⟩ := h
      obtain ⟨hm, hl, hu⟩ := (find_form_iff hle).1 hf
      exact .inr ⟨form, hm, hl, hu, rfl⟩
    · intro h
      obtain ⟨hlt, -⟩ | ⟨form, hm, hl, hu, rfl⟩ := h
      · exact absurd hlt hn
      · exact ⟨form, (find_form_iff hle).2 ⟨hm, hl, hu⟩, rfl⟩

theorem takes_marked {form : Form} (hf : form ∈ forms) (label : String) :
    Takes (do
      let value ← Number.read form.width label
      if value < form.least then throw (.nonCanonical value form.marker) else pure value)
      fun n w => form.least ≤ n ∧ n < capacity form.width ∧ w = toLittle form.width n := by
  have hw : (form.width : Int) < Reader.lengthBound := by
    obtain rfl | rfl | rfl := mem_forms.1 hf
    · decide
    · decide
    · decide
  refine ((Number.takes_read form.width hw label).bind fun value =>
    (takes_throw _).ite (takes_pure value)).congr fun n w => ?_
  constructor
  · intro h
    obtain ⟨value, u, v, hu, hv, rfl⟩ := h
    obtain ⟨m, hm, hlt, rfl⟩ := Number.encode_ok hu
    obtain rfl := Int.ofNat_inj.1 hm
    split at hv
    · exact hv.elim
    · next hl =>
      obtain ⟨rfl, rfl⟩ := hv
      exact ⟨Nat.not_lt.1 hl, hlt, List.append_nil _⟩
  · intro h
    obtain ⟨hl, hlt, rfl⟩ := h
    refine ⟨n, toLittle form.width n, [], Number.encode_ofNat hlt, ?_, (List.append_nil _).symm⟩
    rw [if_neg (Nat.not_lt.2 hl)]
    exact ⟨rfl, rfl⟩

theorem takes_read : Takes read fun n w => encode n = .ok w := by
  refine ((Number.takes_read 1 (by decide) _).bind
    (?_ : ∀ first : Nat, Takes _ fun n w => (form? first = none ∧ n = first ∧ w = []) ∨
      ∃ form, form? first = some form ∧ form.least ≤ n ∧ n < capacity form.width ∧
        w = toLittle form.width n)).congr fun n w => ?_
  · intro first
    cases hf : form? first with
    | none => simpa using takes_pure first
    | some form => simpa using takes_marked (form?_eq_some_iff.1 hf).1 _
  rw [encode_eq_ok_iff]
  constructor
  · intro h
    obtain ⟨first, u, v, hu, hv, rfl⟩ := h
    obtain ⟨m, hm, hlt, rfl⟩ := Number.encode_ok hu
    obtain rfl := Int.ofNat_inj.1 hm
    obtain ⟨hf, rfl, rfl⟩ | ⟨form, hf, hl, hn, rfl⟩ := hv
    · exact .inl ⟨(form?_eq_none_iff hlt).1 hf, rfl⟩
    · obtain ⟨hmem, hmark⟩ := form?_eq_some_iff.1 hf
      obtain rfl := Int.ofNat_inj.1 hmark
      exact .inr ⟨form, hmem, hl, hn, rfl⟩
  · intro h
    obtain ⟨hn, rfl⟩ | ⟨form, hmem, hl, hn, rfl⟩ := h
    · have hlt : n < capacity 1 := Nat.lt_trans hn (by decide)
      exact ⟨n, _, [], Number.encode_ofNat hlt, .inl ⟨(form?_eq_none_iff hlt).2 hn, rfl, rfl⟩, rfl⟩
    · exact ⟨form.marker, _, _, Number.encode_ofNat (marker_lt hmem),
        .inr ⟨form, form?_eq_some_iff.2 ⟨hmem, rfl⟩, hl, hn, rfl⟩, rfl⟩

/-- Only zero is written with a zero first. -/
theorem encode_head {n : Nat} {w : Bytes} (h : encode n = .ok w) :
    ∃ first rest, w = first :: rest ∧ (first = 0 ↔ n = 0) := by
  obtain ⟨hn, rfl⟩ | ⟨form, hmem, hl, -, rfl⟩ := encode_eq_ok_iff.1 h
  · refine ⟨UInt8.ofNat n, [], rfl, ?_⟩
    rw [← UInt8.toNat_inj, UInt8.toNat_ofNat_of_lt' (by simp only [UInt8.size]; omega)]
    rfl
  · refine ⟨_, _, rfl, ?_⟩
    obtain rfl | rfl | rfl := mem_forms.1 hmem
    · simp only at hl
      exact ⟨fun h => absurd h (by decide), fun h => by omega⟩
    · simp only at hl
      exact ⟨fun h => absurd h (by decide), fun h => by omega⟩
    · simp only at hl
      exact ⟨fun h => absurd h (by decide), fun h => by omega⟩

theorem one_le_length_of_encode {n : Nat} {w : Bytes} (h : encode n = .ok w) : 1 ≤ w.length := by
  obtain ⟨first, rest, rfl, -⟩ := encode_head h
  exact Nat.le_add_left 1 rest.length

variable {α β : Type}

theorem takes_sized (label : String) {next : Bytes → Reader β}
    {following : Bytes → β → Bytes → Prop}
    (hn : ∀ data, Takes (next data) (following data)) :
    Takes (do
      let size ← read
      let data ← Reader.bytes size label
      next data)
      fun b w => ∃ data size v, (data.length : Int) < Reader.lengthBound ∧
        encode data.length = .ok size ∧ following data b v ∧ w = size ++ data ++ v := by
  refine (takes_read.bind fun size => (takes_bytes size label).bind hn).congr fun b w => ?_
  constructor
  · intro h
    obtain ⟨size, u, _, hu, ⟨_, data, v, ⟨hl, hb, rfl⟩, hv, rfl⟩, rfl⟩ := h
    rw [← hl] at hu hb
    exact ⟨data, u, v, hb, hu, hv, (List.append_assoc ..).symm⟩
  · intro h
    obtain ⟨data, u, v, hb, hu, hv, rfl⟩ := h
    exact ⟨data.length, u, data ++ v, hu, ⟨data, data, v, ⟨rfl, hb, rfl⟩, hv, rfl⟩,
      List.append_assoc ..⟩

theorem takes_counted {element : Reader α} {fit : α → Prop} {form : α → Except Failure Bytes}
    (he : Takes element fun a w => fit a ∧ form a = .ok w) {next : Nat → List α → Reader β}
    {following : Nat → List α → β → Bytes → Prop}
    (hn : ∀ count found, Takes (next count found) (following count found)) :
    Takes (do
      let count ← read
      let found ← Reader.many count element
      next count found)
      fun b w => ∃ found count ws v, (∀ a ∈ found, fit a) ∧ encode found.length = .ok count ∧
        found.mapM form = .ok ws ∧ following found.length found b v ∧
        w = count ++ ws.flatten ++ v := by
  refine (takes_read.bind fun count =>
    (he.many_encoded count).bind fun found => hn count found).congr fun b w => ?_
  constructor
  · intro h
    obtain ⟨count, u, _, hu, ⟨found, _, v, ⟨rfl, hf, ws, hws, rfl⟩, hv, rfl⟩, rfl⟩ := h
    exact ⟨found, u, ws, v, hf, hu, hws, hv, (List.append_assoc ..).symm⟩
  · intro h
    obtain ⟨found, u, ws, v, hf, hu, hws, hv, rfl⟩ := h
    exact ⟨found.length, u, ws.flatten ++ v, hu,
      ⟨found, ws.flatten, v, ⟨rfl, hf, ws, hws, rfl⟩, hv, rfl⟩, List.append_assoc ..⟩

end CompactSize

end CoinWire.Wire
