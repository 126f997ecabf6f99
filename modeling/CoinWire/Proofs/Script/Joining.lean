import CoinWire.Proofs.Script.Advance
import CoinWire.Proofs.Script.Tokens
import Mathlib.Data.List.DropRight

/-!
Tokens pushed one after another, joined to a text and cut apart again. Every push that has a token puts it
last, and one that has none changes nothing. No token holds a space, so the spaces that the text is stripped
of are those around empty tokens at its ends, and these are all that cutting cannot bring back.
-/

namespace CoinWire.Script

section Words

variable {words : List (List Char)}

theorem intercalate_concat (hne : words ≠ []) (word : List Char) :
    [' '].intercalate (words ++ [word]) = [' '].intercalate words ++ ([' '] ++ word) := by
  induction words with
  | nil => exact absurd rfl hne
  | cons first rest ih =>
    cases rest with
    | nil => simp
    | cons second rest =>
      have hrest := ih (List.cons_ne_nil second rest)
      simp only [List.cons_append, List.intercalate_cons_cons, List.append_assoc] at hrest ⊢
      rw [hrest]

theorem reverse_intercalate (words : List (List Char)) :
    ([' '].intercalate words).reverse = [' '].intercalate (words.reverse.map List.reverse) := by
  induction words with
  | nil => rfl
  | cons first rest ih =>
    cases rest with
    | nil => simp
    | cons second rest =>
      have hne : (second :: rest).reverse.map List.reverse ≠ [] := by simp
      have hlast : (first :: second :: rest).reverse.map List.reverse =
          (second :: rest).reverse.map List.reverse ++ [first.reverse] := by simp
      rw [hlast, intercalate_concat hne, ← ih, List.intercalate_cons_cons, List.reverse_append,
        List.reverse_append]
      rfl

/-- Spaces go as long as the words are empty. -/
theorem dropWhile_intercalate (h : ∀ word ∈ words, ' ' ∉ word) :
    ([' '].intercalate words).dropWhile (· = ' ') =
      [' '].intercalate (words.dropWhile (· = [])) := by
  induction words with
  | nil => rfl
  | cons first rest ih =>
    obtain ⟨hfirst, hrest⟩ := List.forall_mem_cons.1 h
    cases first with
    | nil =>
      cases rest with
      | nil => rfl
      | cons second rest =>
        have hdrop := ih hrest
        simpa using hdrop
    | cons c cs =>
      have hc : c ≠ ' ' := fun hc => hfirst (hc ▸ List.mem_cons_self ..)
      rw [List.dropWhile_cons_of_neg (by simp), List.intercalate_cons_cons_left,
        List.dropWhile_cons_of_neg (by simpa using hc)]

theorem strip_intercalate (h : ∀ word ∈ words, ' ' ∉ word) :
    Asm.strip ([' '].intercalate words) =
      [' '].intercalate ((words.dropWhile (· = [])).rdropWhile (· = [])) := by
  -- The end of the text is the front of the text reversed, which the reversed words spell.
  have hfront : ∀ word ∈ (words.dropWhile (· = [])).reverse.map List.reverse, ' ' ∉ word := by
    intro word hw
    obtain ⟨other, ho, rfl⟩ := List.mem_map.1 hw
    rw [List.mem_reverse]
    exact h other ((List.dropWhile_sublist _).subset (List.mem_reverse.1 ho))
  have hempty : ((fun word : List Char => decide (word = [])) ∘ List.reverse) =
      fun word => decide (word = []) := by
    funext word
    simp
  rw [Asm.strip, dropWhile_intercalate h, reverse_intercalate, dropWhile_intercalate hfront,
    reverse_intercalate, List.dropWhile_map, hempty, ← List.map_reverse, List.map_map,
    List.reverse_involutive.comp_self, List.map_id]
  rfl

end Words

/-- Tokens without the empty ones at both ends. -/
def trimmed (tokens : List String) : List String :=
  (tokens.dropWhile (· = "")).rdropWhile (· = "")

section Trimmed

variable {tokens : List String} {asm : Asm}

theorem map_trimmed (tokens : List String) : (trimmed tokens).map String.toList =
    ((tokens.map String.toList).dropWhile (· = [])).rdropWhile (· = []) := by
  have hempty : ((fun word : List Char => decide (word = [])) ∘ String.toList) =
      fun token => decide (token = "") := by
    funext token
    simp
  rw [trimmed, List.rdropWhile, List.rdropWhile, List.dropWhile_map, hempty, ← List.map_reverse,
    List.dropWhile_map, hempty, ← List.map_reverse]

theorem dropWhile_eq_self_iff :
    tokens.dropWhile (· = "") = tokens ↔ tokens.head? ≠ some "" := by
  rw [List.dropWhile_eq_self_iff]
  cases tokens with
  | nil => simp
  | cons token rest => simp

theorem rdropWhile_eq_self_iff :
    tokens.rdropWhile (· = "") = tokens ↔ tokens.getLast? ≠ some "" := by
  rw [List.rdropWhile_eq_self_iff]
  obtain rfl | ⟨front, last, rfl⟩ := tokens.eq_nil_or_concat'
  · simp
  · simp

theorem trimmed_eq_self_iff :
    trimmed tokens = tokens ↔ tokens.head? ≠ some "" ∧ tokens.getLast? ≠ some "" := by
  rw [← dropWhile_eq_self_iff, ← rdropWhile_eq_self_iff]
  constructor
  · intro h
    have hback : trimmed tokens <+: tokens.dropWhile (· = "") := List.rdropWhile_prefix _ _
    have hfront : tokens.dropWhile (· = "") = tokens := by
      refine (List.dropWhile_sublist _).eq_of_length_le ?_
      rw [h] at hback
      exact hback.length_le
    refine ⟨hfront, ?_⟩
    rwa [trimmed, hfront] at h
  · intro h
    rw [trimmed, h.1, h.2]

theorem mem_of_mem_trimmed {token : String} (h : token ∈ trimmed tokens) : token ∈ tokens := by
  apply (List.dropWhile_sublist _).subset
  exact (List.rdropWhile_prefix _ _).subset h

theorem Asm.text_eq_trimmed (h : ∀ token ∈ asm.tokens, ' ' ∉ token.toList) :
    asm.text = " ".intercalate (trimmed asm.tokens) := by
  have hw : ∀ word ∈ asm.tokens.map String.toList, ' ' ∉ word := by
    intro word hm
    obtain ⟨token, ht, rfl⟩ := List.mem_map.1 hm
    exact h token ht
  have hjoin (words : List String) : (" ".intercalate words).toList =
      [' '].intercalate (words.map String.toList) :=
    String.toList_intercalate
  rw [Asm.text, hjoin, strip_intercalate hw, ← map_trimmed, ← hjoin, String.ofList_toList]

theorem Asm.split_text_eq_iff (h : ∀ token ∈ asm.tokens, ' ' ∉ token.toList) :
    (asm.text.split ' ').toList.map String.Slice.copy = asm.tokens ↔
      asm.tokens = [""] ∨
        asm.tokens ≠ [] ∧ asm.tokens.head? ≠ some "" ∧ asm.tokens.getLast? ≠ some "" := by
  -- The empty text is cut into one empty token, never into none.
  have hcut : (asm.text.split ' ').toList.map String.Slice.copy =
      if trimmed asm.tokens = [] then [""] else trimmed asm.tokens := by
    have hspace : ∀ token ∈ trimmed asm.tokens, ' ' ∉ token.toList :=
      fun token ht => h token (mem_of_mem_trimmed ht)
    have hsplit := String.toList_split_intercalate hspace
    rw [text_eq_trimmed h]
    exact hsplit
  rw [hcut, ← trimmed_eq_self_iff]
  by_cases hnil : trimmed asm.tokens = []
  · rw [if_pos hnil, hnil]
    constructor
    · intro he
      exact .inl he.symm
    · intro he
      obtain he | ⟨hne, he⟩ := he
      · exact he.symm
      · exact absurd he.symm hne
  · rw [if_neg hnil]
    constructor
    · intro he
      exact .inr ⟨he ▸ hnil, he⟩
    · intro he
      obtain he | ⟨-, he⟩ := he
      · rw [he] at hnil
        exact absurd (by decide) hnil
      · exact he

end Trimmed

inductive Push
  | opcode (op : Opcode)
  | data (bytes : Bytes)
  deriving DecidableEq, Repr

variable [DigitLimit]

namespace Push

def token? : Push → Option String
  | opcode op => op.mnemonic.toOption
  | data bytes => some (Hex.encode bytes)

/-- A push as decoders make it, on the tokens of their progress. -/
def step : Push → Decoder Unit
  | opcode op => Decoder.emit op
  | data bytes => Decoder.emitBytes bytes

variable {push : Push} {token : String}

/-- The opcode has no mnemonic, or one with a number too long to be written. -/
def Nameless : Push → Prop
  | opcode op => op.kind = .unsupported ∨ op.overlong?.isSome
  | data _ => False

theorem exists_error_of_token {op : Opcode} (h : (opcode op).token? = none) :
    ∃ e, op.mnemonic = .error e := by
  rw [token?] at h
  cases hm : op.mnemonic with
  | error e => exact ⟨e, rfl⟩
  | ok name =>
    rw [hm] at h
    cases h

theorem token?_eq_none_iff : push.token? = none ↔ push.Nameless := by
  cases push with
  | data bytes => simp [token?, Nameless]
  | opcode op =>
    constructor
    · intro h
      obtain ⟨e, hm⟩ := exists_error_of_token h
      obtain ⟨hk, -⟩ | ⟨n, hn, -⟩ := Opcode.mnemonic_eq_error_iff.1 hm
      · exact .inl hk
      · exact .inr (Option.isSome_of_eq_some hn)
    · intro h
      rw [token?]
      obtain hk | hn := h
      · rw [Opcode.mnemonic_eq_error_iff.2 (.inl ⟨hk, rfl⟩)]
        rfl
      · obtain ⟨n, hn⟩ := Option.isSome_iff_exists.1 hn
        rw [Opcode.mnemonic_eq_error_iff.2 (.inr ⟨n, hn, rfl⟩)]
        rfl

theorem mnemonic_of_token {op : Opcode} (h : (opcode op).token? = some token) :
    op.mnemonic = .ok token := by
  rw [token?] at h
  cases hm : op.mnemonic with
  | error e =>
    rw [hm] at h
    cases h
  | ok name =>
    rw [hm] at h
    rw [Option.some.inj h]

theorem step_of_token (h : push.token? = some token) (p : Progress) :
    push.step p = .ok () { p with asm := ⟨p.asm.tokens ++ [token]⟩ } := by
  cases push with
  | data bytes =>
    obtain rfl := Option.some.inj h
    rfl
  | opcode op =>
    have hm := mnemonic_of_token h
    simp only [step, Decoder.emit, Asm.opcode, hm, Except.map]

theorem step_of_none (h : push.token? = none) (p : Progress) : ∃ e, push.step p = .error e p := by
  cases push with
  | data bytes => cases h
  | opcode op =>
    obtain ⟨e, hm⟩ := exists_error_of_token h
    refine ⟨e, ?_⟩
    simp only [step, Decoder.emit, Asm.opcode, hm, Except.map]

theorem tokens_left (push : Push) (p : Progress) :
    (push.step.left p).asm.tokens = p.asm.tokens ++ push.token?.toList := by
  cases h : push.token? with
  | none =>
    obtain ⟨e, he⟩ := step_of_none h p
    rw [Decoder.left_of_error he, Option.toList_none, List.append_nil]
  | some token => rw [Decoder.left_of_ok (step_of_token h p), Option.toList_some]

theorem word_of_numbered {pre : String} {value : Option Int} (hp : ' ' ∉ pre.toList)
    (h : Opcode.numbered pre value = .ok token) : Word token := by
  obtain ⟨-, rfl⟩ | ⟨n, -, rfl⟩ := Opcode.numbered_cases h
  · rw [Word, String.toList_append]
    exact ⟨by simp, List.not_mem_append hp (by decide)⟩
  · exact word_append_int hp n

theorem word_of_mnemonic {op : Opcode} (h : op.mnemonic = .ok token) : Word token := by
  obtain ⟨kind, value⟩ := op
  cases kind with
  | zero | one | dup | hash160 | equal | equalVerify | checkSig | checkMultisig | ret =>
    obtain rfl := Except.ok.inj h
    decide
  | push | small => exact word_of_numbered (by decide) h
  | unsupported => cases h

/-- Only empty data has a token that is no word. -/
theorem word_or_empty (h : push.token? = some token) :
    Word token ∨ token = "" ∧ push = .data [] := by
  cases push with
  | opcode op => exact .inl (word_of_mnemonic (mnemonic_of_token h))
  | data bytes =>
    obtain rfl := Option.some.inj h
    cases bytes with
    | nil => exact .inr ⟨rfl, rfl⟩
    | cons b rest => exact .inl (word_encode (List.cons_ne_nil b rest))

theorem token?_eq_empty_iff : push.token? = some "" ↔ push = .data [] := by
  constructor
  · intro h
    obtain hw | ⟨-, he⟩ := word_or_empty h
    · exact absurd rfl hw.1
    · exact he
  · intro h
    rw [h]
    rfl

theorem not_mem_token (h : push.token? = some token) : ' ' ∉ token.toList := by
  obtain hw | ⟨rfl, -⟩ := word_or_empty h
  · exact hw.2
  · decide

end Push

namespace Progress

def afterPushes (p : Progress) (pushes : List Push) : Progress :=
  pushes.foldl (fun p push => push.step.left p) p

theorem tokens_afterPushes (p : Progress) (pushes : List Push) :
    (p.afterPushes pushes).asm.tokens = p.asm.tokens ++ pushes.filterMap Push.token? := by
  induction pushes generalizing p with
  | nil => exact (List.append_nil _).symm
  | cons push rest ih =>
    have hstep : p.afterPushes (push :: rest) = (push.step.left p).afterPushes rest := rfl
    rw [hstep, ih, Push.tokens_left, List.append_assoc]
    cases h : push.token? with
    | none => rw [List.filterMap_cons_none h, Option.toList_none, List.nil_append]
    | some token => rw [List.filterMap_cons_some h, Option.toList_some, List.singleton_append]

end Progress

/-- After any pushes, under any limit on digits or none, the tokens are those of all pushes that have one, in
order; only an opcode that cannot be named has none, and it changes nothing. The text joins them without the
empty ones at the ends, which only empty data leaves there, and gives them back exactly where there were none
to lose. -/
theorem pushes_joined (data : Bytes) (pushes : List Push) :
    let p := (Progress.start data).afterPushes pushes
    (∀ push : Push, (∃ e q, push.step p = .error e q) ↔ push.Nameless) ∧
    (∀ (push : Push) e q, push.step p = .error e q → q = p) ∧
    p.asm.tokens = pushes.filterMap Push.token? ∧
    (∀ push : Push, push.token? = some "" ↔ push = .data []) ∧
    p.asm.text = " ".intercalate (trimmed p.asm.tokens) ∧
    ((p.asm.text.split ' ').toList.map String.Slice.copy = p.asm.tokens ↔
      p.asm.tokens = [""] ∨
        p.asm.tokens ≠ [] ∧ p.asm.tokens.head? ≠ some "" ∧ p.asm.tokens.getLast? ≠ some "") := by
  intro p
  have htokens : p.asm.tokens = pushes.filterMap Push.token? :=
    Progress.tokens_afterPushes _ pushes
  have hspace : ∀ token ∈ p.asm.tokens, ' ' ∉ token.toList := by
    rw [htokens]
    intro token ht
    obtain ⟨push, -, hp⟩ := List.mem_filterMap.1 ht
    exact Push.not_mem_token hp
  refine ⟨fun push => ?_, fun push e q h => ?_, htokens, fun push => Push.token?_eq_empty_iff,
    Asm.text_eq_trimmed hspace, Asm.split_text_eq_iff hspace⟩
  · rw [← Push.token?_eq_none_iff]
    constructor
    · intro h
      obtain ⟨e, q, h⟩ := h
      refine Option.eq_none_iff_forall_ne_some.2 fun token ht => ?_
      cases h.symm.trans (Push.step_of_token ht p)
    · intro h
      obtain ⟨e, he⟩ := Push.step_of_none h p
      exact ⟨e, p, he⟩
  · cases ht : push.token? with
    | none =>
      obtain ⟨e', he⟩ := Push.step_of_none ht p
      exact (EStateM.Result.error.inj (h.symm.trans he)).2
    | some token => cases h.symm.trans (Push.step_of_token ht p)

end CoinWire.Script
