import CoinWire.Text.Hex
import CoinWire.Text.Json
import Mathlib

/-!
A printed document tells the document. Each part shows where it ends: a number where something else than a
digit follows, a text at the first quote that is not marked, an array or object where no comma follows its
last row. So wherever two documents are printed in front of other characters, equal characters come from
equal documents.
-/

namespace CoinWire.Json

/-- Induction over the parts of a document, which stand in lists and behind keys. -/
theorem induct {P : Json → Prop} (bool : ∀ value, P (.bool value))
    (number : ∀ value, P (.number value)) (text : ∀ value, P (.text value))
    (array : ∀ elements, (∀ element ∈ elements, P element) → P (.array elements))
    (object : ∀ fields, (∀ field ∈ fields, P field.2) → P (.object fields)) (a : Json) : P a := by
  refine @Json.rec P (fun elements => ∀ element ∈ elements, P element)
    (fun fields => ∀ field ∈ fields, P field.2) (fun field => P field.2) bool number text array object
    ?_ ?_ ?_ ?_ ?_ a
  · exact nofun
  · intro element elements he hes
    exact List.forall_mem_cons.2 ⟨he, hes⟩
  · exact nofun
  · intro field fields hf hfs
    exact List.forall_mem_cons.2 ⟨hf, hfs⟩
  · intro key value hv
    exact hv

section Escape

/-- The number that the characters in front stand for, and what follows them. -/
def unescape : List Char → Option (Nat × List Char)
  | '\\' :: 'u' :: a :: b :: c :: d :: rest =>
    match Hex.digit? a, Hex.digit? b, Hex.digit? c, Hex.digit? d with
    | some a, some b, some c, some d => some (0x1000 * a + 0x100 * b + 0x10 * c + d, rest)
    | _, _, _, _ => none
  | '\\' :: c :: rest => some ((((letters.map Prod.swap).lookup c).getD c).toNat, rest)
  | c :: rest => some (c.toNat, rest)
  | [] => none

theorem unescape_numbered {n : Nat} (hn : n < 0x10000) (rest : List Char) :
    unescape (numbered n ++ rest) = some (n, rest) := by
  have ha := (Hex.digit?_pair (n / 0x1000) (by omega)).1
  have hb := (Hex.digit?_pair (n / 0x100 % 16) (by omega)).1
  have hc := (Hex.digit?_pair (n / 0x10 % 16) (by omega)).1
  have hd := (Hex.digit?_pair (n % 16) (by omega)).1
  simp only [numbered, List.cons_append, List.nil_append, unescape, ha, hb, hc, hd]
  congr 2
  omega

theorem lookup_letters {c letter : Char} (h : letters.lookup c = some letter) :
    c.toNat < 0x20 ∧ ((letters.map Prod.swap).lookup letter).getD letter = c ∧ letter ≠ 'u' := by
  obtain ⟨front, back, hsplit, -⟩ := List.lookup_eq_some_iff.1 h
  have hmem : (c, letter) ∈ letters := by
    rw [hsplit]
    exact List.mem_append_right _ List.mem_cons_self
  have hall : ∀ pair ∈ letters, pair.1.toNat < 0x20 ∧
      ((letters.map Prod.swap).lookup pair.2).getD pair.2 = pair.1 ∧ pair.2 ≠ 'u' := by
    decide
  exact hall _ hmem

/-- The number that a character begins with, which is its own or that of its first half. -/
def leading (c : Char) : Nat := if c.toNat < 0x10000 then c.toNat else highHalf c.toNat

def trailing (c : Char) : List Char := if c.toNat < 0x10000 then [] else numbered (lowHalf c.toNat)

theorem toNat_lt (c : Char) : c.toNat < 0xd800 ∨ 0xdfff < c.toNat ∧ c.toNat < 0x110000 := c.valid

theorem unescape_escape (c : Char) (rest : List Char) :
    unescape (escape c ++ rest) = some (leading c, trailing c ++ rest) := by
  have hlow (h : c.toNat < 0x10000) :
      some (c.toNat, rest) = some (leading c, trailing c ++ rest) := by
    rw [leading, trailing, if_pos h, if_pos h, List.nil_append]
  rw [escape]
  split
  · next hc =>
    obtain rfl | rfl := hc
    · rfl
    · rfl
  · next hc =>
    split
    · next letter hletter =>
      obtain ⟨hcontrol, hback, hu⟩ := lookup_letters hletter
      rw [← hlow (by omega)]
      simp [unescape, hback, hu]
    · split
      · next hascii =>
        rw [← hlow (by omega), List.singleton_append, unescape.eq_def]
        split <;> simp_all
      · split
        · next h16 => exact (unescape_numbered h16 rest).trans (hlow h16)
        · next hhigh =>
          have hc := toNat_lt c
          have hfirst : highHalf c.toNat < 0x10000 := by
            rw [highHalf]
            omega
          rw [leading, trailing, if_neg hhigh, if_neg hhigh, List.append_assoc,
            unescape_numbered hfirst]

theorem head_escape (c : Char) (rest : List Char) : (escape c ++ rest).head? ≠ some '"' := by
  rw [escape]
  split
  · simp
  · next hc =>
    split
    · simp
    · split
      · intro h
        exact hc (.inl (Option.some.inj h))
      · split <;> simp [numbered]

variable {c d : Char} {r s : List Char}

/-- No character has the number of a half, so a first half is followed by the second. -/
theorem escape_append_inj (h : escape c ++ r = escape d ++ s) : c = d ∧ r = s := by
  have hfirst := congrArg unescape h
  rw [unescape_escape, unescape_escape] at hfirst
  obtain ⟨hnumber, hrest⟩ := Prod.mk.inj (Option.some.inj hfirst)
  have hc := toNat_lt c
  have hd := toNat_lt d
  rw [leading, leading, highHalf, highHalf] at hnumber
  rw [trailing, trailing] at hrest
  split at hnumber
  · next hcl =>
    split at hnumber
    · next hdl =>
      rw [if_pos hcl, if_pos hdl] at hrest
      exact ⟨Char.toNat_inj.1 hnumber, hrest⟩
    · omega
  · next hch =>
    split at hnumber
    · omega
    · next hdh =>
      rw [if_neg hch, if_neg hdh] at hrest
      have hsecond := congrArg unescape hrest
      rw [unescape_numbered (by rw [lowHalf]; omega), unescape_numbered (by rw [lowHalf]; omega)]
        at hsecond
      obtain ⟨hlow, hrs⟩ := Prod.mk.inj (Option.some.inj hsecond)
      rw [lowHalf, lowHalf] at hlow
      exact ⟨Char.toNat_inj.1 (by omega), hrs⟩

variable {cs ds : List Char}

theorem flatMap_escape_append_inj
    (h : cs.flatMap escape ++ '"' :: r = ds.flatMap escape ++ '"' :: s) : cs = ds ∧ r = s := by
  induction cs generalizing ds with
  | nil =>
    cases ds with
    | nil => exact ⟨rfl, (List.cons.inj h).2⟩
    | cons d ds =>
      rw [List.flatMap_cons, List.append_assoc] at h
      exact absurd (congrArg List.head? h).symm (head_escape d _)
  | cons c cs ih =>
    cases ds with
    | nil =>
      rw [List.flatMap_cons, List.append_assoc] at h
      exact absurd (congrArg List.head? h) (head_escape c _)
    | cons d ds =>
      rw [List.flatMap_cons, List.flatMap_cons, List.append_assoc, List.append_assoc] at h
      obtain ⟨rfl, hrest⟩ := escape_append_inj h
      obtain ⟨rfl, hrs⟩ := ih hrest
      exact ⟨rfl, hrs⟩

theorem quote_append_inj {a b : String} (h : quote a ++ r = quote b ++ s) : a = b ∧ r = s := by
  simp only [quote, List.cons_append, List.append_assoc, List.nil_append] at h
  obtain ⟨htexts, hrs⟩ := flatMap_escape_append_inj (List.cons.inj h).2
  exact ⟨String.toList_injective htexts, hrs⟩

end Escape

section Numbers

def isNumeric (c : Char) : Bool := c = '-' || c.isDigit

/-- Nothing that could belong to a number stands in front. -/
def Ends (rest : List Char) : Prop := ∀ c ∈ rest.head?, isNumeric c = false

theorem ends_nil : Ends [] := by
  intro c hc
  cases hc

theorem isNumeric_of_mem {n : Int} {c : Char} (h : c ∈ (toString n).toList) : isNumeric c = true := by
  have hnat {m : Nat} (hm : c ∈ (toString m).toList) : isNumeric c = true := by
    rw [Nat.toString_eq_ofList_toDigits, String.toList_ofList] at hm
    rw [isNumeric, Nat.isDigit_of_mem_toDigits (by decide) (by decide) hm, Bool.or_true]
  cases n with
  | ofNat m => exact hnat h
  | negSucc m =>
    change c ∈ ("-" ++ toString (m + 1)).toList at h
    rw [String.toList_append] at h
    obtain h | h := List.mem_append.1 h
    · obtain rfl := List.mem_singleton.1 h
      rfl
    · exact hnat h

theorem number_append_inj {m n : Int} {r s : List Char} (hr : Ends r) (hs : Ends s)
    (h : (toString m).toList ++ r = (toString n).toList ++ s) : m = n ∧ r = s := by
  have htake (k : Int) {rest : List Char} (hrest : Ends rest) :
      ((toString k).toList ++ rest).takeWhile isNumeric = (toString k).toList := by
    have hend : rest.takeWhile isNumeric = [] := by
      cases rest with
      | nil => rfl
      | cons c cs => rw [List.takeWhile_cons_of_neg (by simp [hrest c rfl])]
    rw [List.takeWhile_append_of_pos fun _ => isNumeric_of_mem, hend, List.append_nil]
  have htexts := congrArg (List.takeWhile isNumeric) h
  rw [htake m hr, htake n hs] at htexts
  rw [htexts] at h
  exact ⟨Int.repr_inj.1 (String.toList_injective htexts), List.append_cancel_left h⟩

theorem exists_head_number (n : Int) : ∃ c cs, (toString n).toList = c :: cs ∧ isNumeric c = true := by
  have hne : (toString n).toList ≠ [] := by
    cases n with
    | ofNat m =>
      change (toString m).toList ≠ []
      rw [Nat.toString_eq_ofList_toDigits, String.toList_ofList]
      exact Nat.toDigits_ne_nil
    | negSucc m =>
      change ("-" ++ toString (m + 1)).toList ≠ []
      rw [String.toList_append]
      exact List.cons_ne_nil _ _
  obtain ⟨c, cs, hn⟩ := List.exists_cons_of_ne_nil hne
  exact ⟨c, cs, hn, isNumeric_of_mem (hn ▸ List.mem_cons_self)⟩

end Numbers

section Rows

variable {α : Type}

/-- What is printed in front of something else tells itself and what follows it. -/
def Delimited (row : α → List Char) (a : α) : Prop :=
  ∀ ⦃b r s⦄, Ends r → Ends s → row a ++ r = row b ++ s → a = b ∧ r = s

/-- Rows one below another, with a comma behind each but the last. -/
def layout (row : α → List Char) (depth : Nat) : List α → List Char
  | [] => []
  | a :: rest => newline depth ++ (row a ++ (comma rest.isEmpty ++ layout row depth rest))

def block (first last : Char) (row : α → List Char) (depth : Nat) (rows : List α) : List Char :=
  if rows.isEmpty then [first, last]
  else first :: (layout row (depth + 1) rows ++ (newline depth ++ [last]))

def fieldRow (depth : Nat) (field : String × Json) : List Char :=
  quote field.1 ++ (':' :: ' ' :: field.2.chars depth)

theorem elementChars_eq (depth : Nat) (elements : List Json) :
    elementChars depth elements = layout (chars depth) depth elements := by
  induction elements with
  | nil => rfl
  | cons element rest ih => rw [elementChars, layout, ih]

theorem fieldChars_eq (depth : Nat) (fields : List (String × Json)) :
    fieldChars depth fields = layout (fieldRow depth) depth fields := by
  induction fields with
  | nil => rfl
  | cons field rest ih =>
    simp only [fieldChars, layout, fieldRow, ih, List.append_assoc, List.cons_append]

theorem chars_array (depth : Nat) (elements : List Json) :
    chars depth (.array elements) = block '[' ']' (chars (depth + 1)) depth elements := by
  rw [chars, block, elementChars_eq]

theorem chars_object (depth : Nat) (fields : List (String × Json)) :
    chars depth (.object fields) = block '\x7b' '\x7d' (fieldRow (depth + 1)) depth fields := by
  rw [chars, block, fieldChars_eq]

variable {row : α → List Char} {depth : Nat} {a b : α} {as bs : List α} {r s : List Char}

theorem layout_cons_append (row : α → List Char) (depth : Nat) (a : α) (as : List α) (r : List Char) :
    layout row depth (a :: as) ++ r =
      newline depth ++ (row a ++ (comma as.isEmpty ++ (layout row depth as ++ r))) := by
  simp only [layout, List.append_assoc]

/-- A row is the last one where no comma follows it. -/
theorem layout_append_inj (hrows : ∀ c ∈ a :: as, Delimited row c)
    (h : layout row depth (a :: as) ++ '\n' :: r = layout row depth (b :: bs) ++ '\n' :: s) :
    a :: as = b :: bs ∧ r = s := by
  -- behind a row stands a comma, or the line break in front of the closing bracket
  have hends (ds : List α) (t : List Char) :
      Ends (comma ds.isEmpty ++ (layout row depth ds ++ '\n' :: t)) := by
    intro c hc
    cases ds with
    | nil | cons d ds =>
      obtain rfl := Option.some.inj hc
      rfl
  induction as generalizing a b bs with
  | nil =>
    rw [layout_cons_append row depth a, layout_cons_append row depth b] at h
    obtain ⟨rfl, hrest⟩ := hrows a List.mem_cons_self (hends [] r) (hends bs s)
      (List.append_cancel_left h)
    cases bs with
    | nil => exact ⟨rfl, (List.cons.inj hrest).2⟩
    | cons b bs => cases hrest
  | cons a' as ih =>
    rw [layout_cons_append row depth a, layout_cons_append row depth b] at h
    obtain ⟨rfl, hrest⟩ := hrows a List.mem_cons_self (hends (a' :: as) r) (hends bs s)
      (List.append_cancel_left h)
    cases bs with
    | nil => cases hrest
    | cons b bs =>
      obtain ⟨hlists, hrs⟩ := ih (List.forall_mem_cons.1 hrows).2 (List.cons.inj hrest).2
      exact ⟨congrArg _ hlists, hrs⟩

theorem block_append_inj {first last : Char} (hlast : last ≠ '\n')
    (hrows : ∀ a ∈ as, Delimited row a)
    (h : block first last row depth as ++ r = block first last row depth bs ++ s) : as = bs ∧ r = s := by
  cases as with
  | nil =>
    cases bs with
    | nil => exact ⟨rfl, List.append_cancel_left h⟩
    | cons b bs => exact absurd (List.cons.inj (List.cons.inj h).2).1 hlast
  | cons a as =>
    cases bs with
    | nil => exact absurd (List.cons.inj (List.cons.inj h).2).1.symm hlast
    | cons b bs =>
      simp only [block, List.isEmpty_cons, Bool.false_eq_true, if_false, newline, List.cons_append,
        List.append_assoc, List.nil_append] at h
      obtain ⟨hlists, htails⟩ := layout_append_inj hrows (List.cons.inj h).2
      exact ⟨hlists, (List.cons.inj (List.append_cancel_left htails)).2⟩

theorem delimited_fieldRow {field : String × Json} (h : Delimited (chars depth) field.2) :
    Delimited (fieldRow depth) field := by
  intro other r s hr hs he
  simp only [fieldRow, List.append_assoc, List.cons_append] at he
  obtain ⟨hkeys, hvalues⟩ := quote_append_inj he
  obtain ⟨hvalue, hrs⟩ := h hr hs (List.cons.inj (List.cons.inj hvalues).2).2
  exact ⟨Prod.ext hkeys hvalue, hrs⟩

end Rows

/-- What the first character of a document tells about it. -/
inductive Form
  | bool (value : Bool)
  | number
  | text
  | array
  | object

def form : Json → Form
  | bool value => .bool value
  | number _ => .number
  | text _ => .text
  | array _ => .array
  | object _ => .object

def Form.ofInitial (c : Char) : Form :=
  if isNumeric c then .number
  else if c = '"' then .text
  else if c = '[' then .array
  else if c = '\x7b' then .object
  else .bool (c = 't')

theorem ofInitial_chars (depth : Nat) (a : Json) (r : List Char) :
    (a.chars depth ++ r).head?.map Form.ofInitial = some a.form := by
  cases a with
  | bool value =>
    cases value with
    | false | true => rfl
  | number n =>
    obtain ⟨c, cs, hn, hc⟩ := exists_head_number n
    simp only [chars, hn, List.cons_append, List.head?_cons, Option.map_some, Form.ofInitial, hc, form,
      if_true]
  | text t => rfl
  | array elements =>
    rw [chars_array, block]
    split <;> rfl
  | object fields =>
    rw [chars_object, block]
    split <;> rfl

theorem form_eq {depth : Nat} {a b : Json} {r s : List Char}
    (h : a.chars depth ++ r = b.chars depth ++ s) : a.form = b.form := by
  have hinitial := congrArg (fun cs => cs.head?.map Form.ofInitial) h
  simpa only [ofInitial_chars, Option.some.injEq] using hinitial

/-- Wherever a document is printed, its characters tell it and where it ends. -/
theorem delimited_chars (a : Json) (depth : Nat) : Delimited (chars depth) a := by
  induction a using induct generalizing depth with
  | bool value =>
    intro b r s _ _ he
    have hform := form_eq he
    cases b with
    | bool value' =>
      cases hform
      exact ⟨rfl, List.append_cancel_left he⟩
    | number | text | array | object => cases hform
  | number n =>
    intro b r s hr hs he
    have hform := form_eq he
    cases b with
    | number m =>
      rw [chars, chars] at he
      obtain ⟨rfl, hrs⟩ := number_append_inj hr hs he
      exact ⟨rfl, hrs⟩
    | bool | text | array | object => cases hform
  | text t =>
    intro b r s _ _ he
    have hform := form_eq he
    cases b with
    | text t' =>
      rw [chars, chars] at he
      obtain ⟨rfl, hrs⟩ := quote_append_inj he
      exact ⟨rfl, hrs⟩
    | bool | number | array | object => cases hform
  | array elements ih =>
    intro b r s _ _ he
    have hform := form_eq he
    cases b with
    | array elements' =>
      rw [chars_array, chars_array] at he
      obtain ⟨rfl, hrs⟩ := block_append_inj (by decide) (fun element hm => ih element hm _) he
      exact ⟨rfl, hrs⟩
    | bool | number | text | object => cases hform
  | object fields ih =>
    intro b r s _ _ he
    have hform := form_eq he
    cases b with
    | object fields' =>
      rw [chars_object, chars_object] at he
      obtain ⟨rfl, hrs⟩ := block_append_inj (by decide)
        (fun field hm => delimited_fieldRow (ih field hm _)) he
      exact ⟨rfl, hrs⟩
    | bool | number | text | array => cases hform

theorem print_injective : Function.Injective print := by
  intro a b h
  have hchars : a.chars 0 ++ [] = b.chars 0 ++ [] := by
    simpa only [print, String.ofList_inj, List.append_nil] using h
  exact (delimited_chars a 0 ends_nil ends_nil hchars).1

end CoinWire.Json
