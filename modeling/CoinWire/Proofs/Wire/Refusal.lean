import CoinWire.Proofs.Wire.Sizes

/-!
How readers fail. A reader refuses its data in the family of read failures, except where it meets a length
that no read can take: it then fails outside every family. Which bytes lead up to such a length is known
for a sequence from the forms that its first steps take, and for a counted repetition from the elements in
front.
-/

namespace CoinWire.Wire

namespace Reader

variable {α β : Type}

/-- Data that is either read or refused as unreadable. -/
def Settles (reader : Reader α) (bytes : Bytes) : Prop :=
  (∃ a rest, reader bytes = .ok a rest) ∨
    ∃ e rest, reader bytes = .error e rest ∧ Family.read ∈ e.families

/-- Here `oversized w` says that the bytes `w` are what is read up to a length that no read can take. -/
structure Refuses (reader : Reader α) (oversized : Bytes → Prop) : Prop where
  read {unread e rest} :
    reader unread = .error e rest → e ≠ .lengthOverflow → Family.read ∈ e.families
  overflow {unread rest} :
    reader unread = .error .lengthOverflow rest ↔ ∃ w, oversized w ∧ unread = w ++ rest

section Refuses

variable {reader : Reader α} {written : α → Bytes → Prop} {oversized : Bytes → Prop}

theorem Refuses.congr {other : Bytes → Prop} (h : Refuses reader oversized)
    (ho : ∀ w, oversized w ↔ other w) : Refuses reader other := by
  refine ⟨h.read, fun {unread rest} => ?_⟩
  rw [h.overflow]
  simp only [ho]

theorem Refuses.settles_iff (h : Refuses reader oversized) (bytes : Bytes) :
    reader.Settles bytes ↔ ¬ ∃ w, oversized w ∧ w <+: bytes := by
  have hover : (∃ w, oversized w ∧ w <+: bytes) ↔
      ∃ rest, reader bytes = .error .lengthOverflow rest := by
    simp only [h.overflow]
    constructor
    · intro hw
      obtain ⟨w, hw, rest, rfl⟩ := hw
      exact ⟨rest, w, hw, rfl⟩
    · intro hr
      obtain ⟨rest, w, hw, rfl⟩ := hr
      exact ⟨w, hw, rest, rfl⟩
  rw [hover, Settles]
  cases hr : reader bytes with
  | ok a rest => simp
  | error e rest =>
    by_cases he : e = .lengthOverflow
    · subst he
      simp [Failure.families]
    · simp [he, h.read hr he]

theorem Refuses.read_of_never (h : Refuses reader fun _ => False) {unread rest : Bytes}
    {e : Failure} (hr : reader unread = .error e rest) : Family.read ∈ e.families := by
  refine h.read hr ?_
  intro he
  subst he
  obtain ⟨_, hf, -⟩ := h.overflow.1 hr
  exact hf

theorem refuses_pure (a : α) : Refuses (pure a) fun _ => False := by
  refine ⟨nofun, ?_⟩
  simp [pure, EStateM.pure]

theorem refuses_throw {e : Failure} (he : Family.read ∈ e.families) :
    Refuses (throw e : Reader α) fun _ => False := by
  constructor
  · intro unread e' rest h _
    obtain ⟨rfl, -⟩ := EStateM.Result.error.inj h
    exact he
  · intro unread rest
    simp only [false_and, exists_false, iff_false]
    intro h
    obtain ⟨rfl, -⟩ := EStateM.Result.error.inj h
    cases he

theorem Refuses.ite {c : Prop} [Decidable c] (h : Refuses reader oversized) {other : Reader α}
    {oversizedOther : Bytes → Prop} (ho : Refuses other oversizedOther) :
    Refuses (if c then reader else other) fun w => if c then oversized w else oversizedOther w := by
  by_cases hc : c
  · simpa only [if_pos hc] using h
  · simpa only [if_neg hc] using ho

/-- The length is met either by the first reader or, behind a form that it takes, by the second. -/
theorem Refuses.bind (h : Refuses reader oversized) (ht : Takes reader written)
    {next : α → Reader β} {following : α → Bytes → Prop} (hn : ∀ a, Refuses (next a) (following a)) :
    Refuses (reader >>= next) fun w =>
      oversized w ∨ ∃ a u v, written a u ∧ following a v ∧ w = u ++ v := by
  constructor
  · intro unread e rest hr he
    obtain hr | ⟨a, between, -, hr⟩ := run_bind_eq_error_iff.1 hr
    · exact h.read hr he
    · exact (hn a).read hr he
  · intro unread rest
    rw [run_bind_eq_error_iff]
    constructor
    · intro hr
      obtain hr | ⟨a, between, ha, hr⟩ := hr
      · obtain ⟨w, hw, rfl⟩ := h.overflow.1 hr
        exact ⟨w, .inl hw, rfl⟩
      · obtain ⟨u, hu, rfl⟩ := (ht _ _ _).1 ha
        obtain ⟨v, hv, rfl⟩ := (hn a).overflow.1 hr
        exact ⟨u ++ v, .inr ⟨a, u, v, hu, hv, rfl⟩, (List.append_assoc ..).symm⟩
    · intro hw
      obtain ⟨_, hw | ⟨a, u, v, hu, hv, rfl⟩, rfl⟩ := hw
      · exact .inl (h.overflow.2 ⟨_, hw, rfl⟩)
      · refine .inr ⟨a, v ++ rest, ?_, (hn a).overflow.2 ⟨v, hv, rfl⟩⟩
        rw [List.append_assoc]
        exact ht.append hu (v ++ rest)

theorem Refuses.map (h : Refuses reader oversized) (ht : Takes reader written) (f : α → β) :
    Refuses (do pure (f (← reader))) oversized := by
  refine (h.bind ht fun a => refuses_pure (f a)).congr fun w => ?_
  simp only [false_and, and_false, exists_false, or_false]

/-- Fewer elements than counted, and then what leads up to the length inside the next one. -/
def CutIn (written : α → Bytes → Prop) (oversized : Bytes → Prop) (count : Nat) (w : Bytes) : Prop :=
  ∃ found ws v, found.length < count ∧ List.Forall₂ written found ws ∧ oversized v ∧
    w = ws.flatten ++ v

theorem cutIn_succ {count : Nat} {w : Bytes} : CutIn written oversized (count + 1) w ↔
    oversized w ∨ ∃ a u v, written a u ∧ CutIn written oversized count v ∧ w = u ++ v := by
  constructor
  · intro h
    obtain ⟨_, _, v, hl, hf, hv, rfl⟩ := h
    cases hf with
    | nil => exact .inl hv
    | @cons a u found ws hu hws =>
      refine .inr ⟨a, u, ws.flatten ++ v, hu, ⟨found, ws, v, ?_, hws, hv, rfl⟩, ?_⟩
      · exact Nat.lt_of_succ_lt_succ hl
      · simp only [List.flatten_cons, List.append_assoc]
  · intro h
    obtain hw | ⟨a, u, _, hu, ⟨found, ws, v, hl, hws, hv, rfl⟩, rfl⟩ := h
    · exact ⟨[], [], w, Nat.succ_pos count, .nil, hw, rfl⟩
    · refine ⟨a :: found, u :: ws, v, Nat.succ_lt_succ hl, .cons hu hws, hv, ?_⟩
      simp only [List.flatten_cons, List.append_assoc]

theorem Refuses.many (h : Refuses reader oversized) (ht : Takes reader written) (count : Nat) :
    Refuses (many count reader) (CutIn written oversized count) := by
  induction count with
  | zero =>
    refine (refuses_pure []).congr fun w => ?_
    simp [CutIn]
  | succ count ih =>
    rw [many_succ]
    refine (h.bind ht fun a => ih.bind (ht.many count) fun found =>
      refuses_pure (a :: found)).congr fun w => ?_
    simp only [cutIn_succ, false_and, and_false, exists_false, or_false]

theorem refuses_bytes (length : Int) (label : String) : Refuses (bytes length label)
    fun w => (length < -lengthBound ∨ lengthBound ≤ length) ∧ w = [] := by
  have hread : Family.read ∈ (Failure.insufficient label).families := by
    simp [Failure.families]
  constructor
  · intro unread e rest h he
    simp only [bytes] at h
    split at h
    · obtain ⟨rfl, -⟩ := EStateM.Result.error.inj h
      exact absurd rfl he
    · split at h
      · obtain ⟨rfl, -⟩ := EStateM.Result.error.inj h
        exact hread
      · cases h
  · intro unread rest
    simp only [bytes]
    split
    · next hb => simp [hb]
    · next hb =>
      split
      · simp [hb]
      · simp [hb]

end Refuses

end Reader

open Reader (Refuses Takes refuses_bytes refuses_pure refuses_throw takes_bytes takes_pure lengthBound)

theorem Number.exists_encode_iff {width : Nat} {w : Bytes} :
    (∃ n : Nat, Number.encode width n = .ok w) ↔ w.length = width := by
  constructor
  · intro h
    obtain ⟨n, hn⟩ := h
    exact length_of_encode hn
  · intro h
    subst h
    refine ⟨ofLittle w, ?_⟩
    rw [encode_ofNat (ofLittle_lt w), toLittle_ofLittle]

theorem Number.refuses_read (width : Nat) (hw : (width : Int) < lengthBound) (label : String) :
    Refuses (Number.read width label) fun _ => False := by
  have hb : ¬ ((width : Int) < -lengthBound ∨ lengthBound ≤ width) := by
    simp only [lengthBound] at *
    omega
  refine ((refuses_bytes width label).bind (takes_bytes width label) fun got =>
    refuses_pure (ofLittle got)).congr fun w => ?_
  simp [hb]

namespace CompactSize

theorem refuses_marked (first : Nat) : Refuses (match form? first with
    | none => pure first
    | some form => do
      let value ← Number.read form.width
        ("compact-size value for prefix 0x" ++ Hex.ofNat form.marker)
      if value < form.least then throw (.nonCanonical value form.marker) else pure value)
    fun _ => False := by
  cases hf : form? first with
  | none => exact refuses_pure first
  | some form =>
    have hw : (form.width : Int) < lengthBound := by
      obtain rfl | rfl | rfl := mem_forms.1 (form?_eq_some_iff.1 hf).1
      · decide
      · decide
      · decide
    refine ((Number.refuses_read form.width hw _).bind (Number.takes_read form.width hw _)
      fun value => (refuses_throw ?_).ite (refuses_pure value)).congr fun w => ?_
    · simp [Failure.families]
    · simp

theorem refuses_read : Refuses read fun _ => False := by
  refine ((Number.refuses_read 1 (by decide) _).bind (Number.takes_read 1 (by decide) _)
    refuses_marked).congr fun w => ?_
  simp

/-- A size in its compact form, of a length that no read can take. -/
def Oversized (w : Bytes) : Prop :=
  ∃ size : Nat, lengthBound ≤ size ∧ encode size = .ok w

variable {α β : Type}

theorem refuses_sized (label : String) {next : Bytes → Reader β}
    {following : Bytes → Bytes → Prop} (hn : ∀ data, Refuses (next data) (following data)) :
    Refuses (do
      let size ← read
      let data ← Reader.bytes size label
      next data)
      fun w => Oversized w ∨ ∃ data size v, (data.length : Int) < lengthBound ∧
        encode data.length = .ok size ∧ following data v ∧ w = size ++ data ++ v := by
  have hbound (size : Nat) : ((size : Int) < -lengthBound ∨ lengthBound ≤ size) ↔
      lengthBound ≤ size := by
    simp only [lengthBound]
    omega
  refine (refuses_read.bind takes_read fun size =>
    (refuses_bytes size label).bind (takes_bytes size label) hn).congr fun w => ?_
  simp only [false_or, hbound]
  constructor
  · intro h
    obtain ⟨size, u, _, hu, ⟨hb, rfl⟩ | ⟨data, _, v, ⟨hl, hb, rfl⟩, hv, rfl⟩, rfl⟩ := h
    · rw [List.append_nil]
      exact .inl ⟨size, hb, hu⟩
    · rw [← hl] at hb
      rw [← Int.ofNat_inj.1 hl] at hu
      exact .inr ⟨_, u, v, hb, hu, hv, (List.append_assoc ..).symm⟩
  · intro h
    obtain ⟨size, hb, hu⟩ | ⟨data, u, v, hb, hu, hv, rfl⟩ := h
    · exact ⟨size, w, [], hu, .inl ⟨hb, rfl⟩, (List.append_nil w).symm⟩
    · exact ⟨data.length, u, data ++ v, hu, .inr ⟨data, data, v, ⟨rfl, hb, rfl⟩, hv, rfl⟩,
        List.append_assoc ..⟩

def Listed (written : α → Bytes → Prop) (found : List α) (w : Bytes) : Prop :=
  ∃ count ws, encode found.length = .ok count ∧ List.Forall₂ written found ws ∧
    w = count ++ ws.flatten

/-- A list that is left inside an element, where the length is met. -/
def CutList (written : α → Bytes → Prop) (oversized : Bytes → Prop) (w : Bytes) : Prop :=
  ∃ (n : Nat) (count v : Bytes), encode n = .ok count ∧ Reader.CutIn written oversized n v ∧
    w = count ++ v

theorem refuses_counted {element : Reader α} {written : α → Bytes → Prop}
    {oversized : Bytes → Prop} (he : Refuses element oversized) (ht : Takes element written)
    {next : Nat → List α → Reader β} {following : Nat → List α → Bytes → Prop}
    (hn : ∀ count found, Refuses (next count found) (following count found)) :
    Refuses (do
      let count ← read
      let found ← Reader.many count element
      next count found)
      fun w => CutList written oversized w ∨ ∃ found u v, Listed written found u ∧
        following found.length found v ∧ w = u ++ v := by
  refine (refuses_read.bind takes_read fun count =>
    (he.many ht count).bind (ht.many count) fun found => hn count found).congr fun w => ?_
  simp only [false_or]
  constructor
  · intro h
    obtain ⟨n, count, v, hc, h, rfl⟩ := h
    obtain h | ⟨found, _, v, ⟨rfl, ws, hws, rfl⟩, hv, rfl⟩ := h
    · exact .inl ⟨n, count, v, hc, h, rfl⟩
    · exact .inr ⟨found, count ++ ws.flatten, v, ⟨count, ws, hc, hws, rfl⟩, hv,
        (List.append_assoc ..).symm⟩
  · intro h
    obtain ⟨n, count, v, hc, h, rfl⟩ | ⟨found, _, v, ⟨count, ws, hc, hws, rfl⟩, hv, rfl⟩ := h
    · exact ⟨n, count, v, hc, .inl h, rfl⟩
    · exact ⟨found.length, count, ws.flatten ++ v, hc,
        .inr ⟨found, ws.flatten, v, ⟨rfl, ws, hws, rfl⟩, hv, rfl⟩, List.append_assoc ..⟩

end CompactSize

end CoinWire.Wire
