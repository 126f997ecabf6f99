import CoinWire.Script.Asm
import CoinWire.Script.Standard

/-!
Tokens as words. No token of a standard script is empty or holds a space, and so the text that joins them
has no space at its ends to be stripped.
-/

namespace CoinWire.Script

/-- What single spaces can separate. -/
def Word (token : String) : Prop := token.toList ≠ [] ∧ ' ' ∉ token.toList

instance : DecidablePred Word := fun token => by
  unfold Word
  infer_instance

namespace Asm

theorem strip_eq_self {text : List Char} (hh : text.head? ≠ some ' ')
    (hl : text.getLast? ≠ some ' ') : strip text = text := by
  have hdrop (cs : List Char) (h : cs.head? ≠ some ' ') : cs.dropWhile (· = ' ') = cs := by
    cases cs with
    | nil => rfl
    | cons c rest =>
      refine List.dropWhile_cons_of_neg ?_
      simpa using h
  rw [strip, hdrop text hh, hdrop text.reverse, List.reverse_reverse]
  rwa [List.head?_reverse]

theorem ends_intercalate {words : List (List Char)} (h : ∀ word ∈ words, word ≠ [] ∧ ' ' ∉ word) :
    ([' '].intercalate words).head? ≠ some ' ' ∧ ([' '].intercalate words).getLast? ≠ some ' ' := by
  induction words with
  | nil => exact ⟨nofun, nofun⟩
  | cons word words ih =>
    obtain ⟨⟨hne, hs⟩, hrest⟩ := List.forall_mem_cons.1 h
    refine ⟨?_, ?_⟩
    · obtain ⟨c, cs, rfl⟩ := List.exists_cons_of_ne_nil hne
      rw [List.intercalate_cons_cons_left]
      intro hh
      obtain rfl := Option.some.inj hh
      exact hs (List.mem_cons_self ..)
    · cases words with
      | nil =>
        rw [List.intercalate_singleton]
        exact fun hl => hs (List.mem_of_getLast? hl)
      | cons second words =>
        have hjoin : [' '].intercalate (second :: words) ≠ [] := by
          obtain ⟨c, cs, rfl⟩ := List.exists_cons_of_ne_nil (hrest second (List.mem_cons_self ..)).1
          rw [List.intercalate_cons_cons_left]
          exact nofun
        rw [List.intercalate_cons_cons, List.getLast?_append, List.getLast?_eq_some_getLast hjoin,
          Option.some_or, ← List.getLast?_eq_some_getLast hjoin]
        exact (ih hrest).2

/-- Between words the spaces are single, and outside there are none. -/
theorem text_eq_intercalate {asm : Asm} (h : ∀ token ∈ asm.tokens, Word token) :
    asm.text = " ".intercalate asm.tokens := by
  have hw : ∀ word ∈ asm.tokens.map String.toList, word ≠ [] ∧ ' ' ∉ word := by
    intro word hm
    obtain ⟨token, ht, rfl⟩ := List.mem_map.1 hm
    exact h token ht
  obtain ⟨hh, hl⟩ := ends_intercalate hw
  have hjoin : (" ".intercalate asm.tokens).toList =
      [' '].intercalate (asm.tokens.map String.toList) :=
    String.toList_intercalate
  rw [text, hjoin, strip_eq_self hh hl, ← hjoin, String.ofList_toList]

end Asm

theorem word_append_number {pre : String} (hp : ' ' ∉ pre.toList) (n : Nat) :
    Word (pre ++ toString n) := by
  have hn : (toString n).toList = Nat.toDigits 10 n := String.toList_ofList
  rw [Word, String.toList_append, hn]
  refine ⟨?_, ?_⟩
  · intro h
    exact Nat.toDigits_ne_nil (List.append_eq_nil_iff.1 h).2
  · intro h
    obtain h | h := List.mem_append.1 h
    · exact hp h
    · have hd := Nat.isDigit_of_mem_toDigits (by decide) (by decide) h
      revert hd
      decide

theorem word_append_int {pre : String} (hp : ' ' ∉ pre.toList) (n : Int) :
    Word (pre ++ toString n) := by
  cases n with
  | ofNat n => exact word_append_number hp n
  | negSucc n =>
    have hminus : ' ' ∉ (pre ++ "-").toList := by
      rw [String.toList_append]
      exact List.not_mem_append hp (by decide)
    have hword := word_append_number hminus (n + 1)
    rwa [String.append_assoc] at hword

theorem word_encode {data : Bytes} (hd : data ≠ []) : Word (Hex.encode data) := by
  rw [Word, Hex.toList_encode]
  refine ⟨?_, ?_⟩
  · cases data with
    | nil => exact absurd rfl hd
    | cons b rest =>
      intro h
      cases h
  · intro h
    obtain ⟨b, -, hb⟩ := List.mem_flatMap.1 h
    simp only [Hex.pair, List.mem_cons, List.not_mem_nil, or_false] at hb
    obtain h | h := hb
    · exact Nat.digitChar_ne ' ' rfl h.symm
    · exact Nat.digitChar_ne ' ' rfl h.symm

namespace Standard

theorem word_pushTokens {data : Bytes} (hd : 1 ≤ data.length) :
    ∀ token ∈ pushTokens data, Word token := by
  have hne : data ≠ [] := List.ne_nil_of_length_pos hd
  intro token h
  obtain rfl | h := List.mem_cons.1 h
  · exact word_append_number (by decide) data.length
  · obtain rfl := List.mem_singleton.1 h
    exact word_encode hne

theorem Valid.word {s : Standard} (hs : s.Valid) : ∀ token ∈ s.tokens, Word token := by
  cases s with
  | p2pk key =>
    have hl : key.length = 65 := hs
    simp only [tokens, List.forall_mem_append]
    exact ⟨word_pushTokens (by omega), by decide⟩
  | p2pkh hash =>
    have hl : hash.length = 20 := hs
    simp only [tokens, List.forall_mem_cons, List.forall_mem_append]
    exact ⟨by decide, by decide, word_pushTokens (by omega), by decide⟩
  | p2sh hash =>
    have hl : hash.length = 20 := hs
    simp only [tokens, List.forall_mem_cons, List.forall_mem_append]
    exact ⟨by decide, word_pushTokens (by omega), by decide⟩
  | p2wpkh hash =>
    have hl : hash.length = 20 := hs
    exact List.forall_mem_cons.2 ⟨by decide, word_pushTokens (by omega)⟩
  | p2wsh hash =>
    have hl : hash.length = 32 := hs
    exact List.forall_mem_cons.2 ⟨by decide, word_pushTokens (by omega)⟩
  | p2tr key =>
    have hl : key.length = 32 := hs
    exact List.forall_mem_cons.2 ⟨by decide, word_pushTokens (by omega)⟩
  | multisig required keys =>
    obtain ⟨-, -, -, hl⟩ := hs
    have hkeys : ∀ token ∈ keys.flatMap pushTokens, Word token := by
      intro token h
      obtain ⟨key, hk, h⟩ := List.mem_flatMap.1 h
      have hkey := hl key hk
      exact word_pushTokens (by omega) token h
    simp only [tokens, List.forall_mem_cons, List.forall_mem_append]
    exact ⟨word_append_number (by decide) required, hkeys,
      word_append_number (by decide) keys.length, by decide⟩
  | dataCarrier data =>
    obtain ⟨h1, -⟩ := hs
    exact List.forall_mem_cons.2 ⟨by decide, word_pushTokens h1⟩

end Standard

end CoinWire.Script
