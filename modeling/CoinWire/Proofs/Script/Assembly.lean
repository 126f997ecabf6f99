import CoinWire.Proofs.Script.Extension
import CoinWire.Proofs.Script.Mnemonics

/-!
Nothing is lost in the assembly of a script. Every step of a template emits just the tokens that stand for the
bytes it consumes, and so the tokens of a script can be assembled into the bytes that its template took. The
text gives the tokens back where it is split at its spaces, and no two scripts have the same text.
-/

namespace CoinWire.Script

section Assembled

variable [DigitLimit] {token : String} {found : List String} {u v bytes : Bytes}

theorem assembled?_cons (ht : bytesOfToken? token = some u) (hf : assembled? found = some v) :
    assembled? (token :: found) = some (u ++ v) := by
  simp [assembled?, ht, hf]

theorem assembled?_singleton (ht : bytesOfToken? token = some u) : assembled? [token] = some u := by
  have hnil : assembled? [] = some [] := rfl
  have h := assembled?_cons ht hnil
  rwa [List.append_nil] at h

theorem assembled?_mnemonic {b : UInt8} (h : (Opcode.ofByte b).mnemonic = .ok token) :
    assembled? [token] = some [b] :=
  assembled?_singleton (bytesOfToken?_of_mnemonic h)

theorem assembled?_pushTokens {data : Bytes} (h1 : 1 ≤ data.length) (h75 : data.length ≤ 75) :
    assembled? (Standard.pushTokens data) = some (Standard.pushed data) := by
  have hop := Opcode.ofByte_pushed_iff.2 ⟨h1, h75, rfl⟩
  have hpush : (Opcode.ofByte (UInt8.ofNat data.length)).mnemonic =
      .ok ("OP_PUSHBYTES_" ++ toString data.length) := by
    rw [hop]
    exact Opcode.mnemonic_pushed hop
  exact assembled?_cons (bytesOfToken?_of_mnemonic hpush)
    (assembled?_singleton (bytesOfToken?_encode data))

theorem assembled?_numberToken {n : Nat} (h1 : 1 ≤ n) (h16 : n ≤ 16) :
    assembled? [Standard.numberToken n] = some [Standard.number n] := by
  have hn := Decoder.taken_number_iff.2 ⟨n, rfl, h1, h16, rfl⟩
  exact assembled?_mnemonic (Opcode.mnemonic_of_number? hn)

theorem assembled?_keys {keys : List Bytes} (hl : ∀ key ∈ keys, key.length = 65) :
    assembled? (keys.flatMap Standard.pushTokens) = some (keys.flatMap Standard.pushed) := by
  induction keys with
  | nil => rfl
  | cons key keys ih =>
    obtain ⟨hkey, hl⟩ := List.forall_mem_cons.1 hl
    exact assembled?_append (assembled?_pushTokens (by omega) (by omega)) (ih hl)

theorem Step.Matches.assembled? {step : Step} (h : step.Matches bytes found) :
    assembled? found = some bytes := by
  cases step with
  | opcode op =>
    obtain ⟨b, name, rfl, hname, rfl, rfl⟩ := h
    exact assembled?_mnemonic hname
  | push n =>
    obtain ⟨data, rfl, h1, h75, rfl, rfl⟩ := h
    simp only [Opcode.longestPush] at h75
    exact assembled?_pushTokens (by omega) (by omega)

theorem Pattern.Matches.assembled? {pattern : Pattern} (h : pattern.Matches bytes found) :
    assembled? found = some bytes := by
  induction pattern generalizing bytes found with
  | nil =>
    obtain ⟨rfl, rfl⟩ := h
    rfl
  | cons step rest ih =>
    obtain ⟨u, s, v, t, hu, hv, rfl, rfl⟩ := h
    exact assembled?_append hu.assembled? (ih hv)

theorem assembled?_dataCarrier (h : Shaped .dataCarrier bytes found) :
    assembled? found = some bytes := by
  obtain ⟨s, hk, hs, rfl, rfl⟩ := h
  cases s with
  | dataCarrier data =>
    obtain ⟨h1, h75⟩ := hs
    exact assembled?_cons (bytesOfToken?_of_mnemonic (b := 0x6a) rfl) (assembled?_pushTokens h1 h75)
  | p2pk | p2pkh | p2sh | p2wpkh | p2wsh | p2tr | multisig => cases hk

theorem assembled?_multisig (h : Shaped .multisig bytes found) : assembled? found = some bytes := by
  obtain ⟨s, hk, hs, rfl, rfl⟩ := h
  cases s with
  | multisig required keys =>
    obtain ⟨h1, hr, h16, hl⟩ := hs
    have hrequired := assembled?_numberToken h1 (by omega)
    have hcount := assembled?_numberToken (n := keys.length) (by omega) h16
    have hlast : assembled? ["OP_CHECKMULTISIG"] = some [0xae] := assembled?_mnemonic rfl
    exact assembled?_append hrequired (assembled?_append (assembled?_keys hl)
      (assembled?_append hcount hlast))
  | p2pk | p2pkh | p2sh | p2wpkh | p2wsh | p2tr | dataCarrier => cases hk

end Assembled

namespace Decoder

variable [DigitLimit] {α : Type} {decoder : Decoder α}

def Spells (decoder : Decoder α) : Prop :=
  ∀ p a q, decoder p = .ok a q → ∃ bytes tokens, p.Advances bytes tokens q ∧
    assembled? tokens = some bytes

theorem Takes.spells {taken : α → Bytes → List String → Prop} (h : Takes decoder taken)
    (ht : ∀ a bytes tokens, taken a bytes tokens → assembled? tokens = some bytes) :
    Spells decoder := by
  intro p a q hr
  obtain ⟨bytes, tokens, htaken, hq⟩ := (h p a q).1 hr
  exact ⟨bytes, tokens, hq, ht a bytes tokens htaken⟩

theorem spells_pattern (pattern : Pattern) : Spells pattern.decode :=
  (Pattern.takes_decode pattern).spells fun _ _ _ => Pattern.Matches.assembled?

theorem spells_ofKind (kind : Kind) : Spells (ofKind kind) := by
  cases kind with
  | p2pk | p2pkh | p2sh | p2wpkh | p2wsh | p2tr => exact spells_pattern _
  | multisig => exact takes_multisig.spells fun _ _ _ => assembled?_multisig
  | dataCarrier => exact takes_dataCarrier.spells fun _ _ _ => assembled?_dataCarrier

end Decoder

section Text

variable {settings : Settings} {script : Bytes} {text : String} {p : Progress}

theorem asm_eq_ok_iff_decode : (asm settings script).value = .ok text ↔ ∃ p,
    (decode script).value = .ok p ∧ (p.cursor.unread = [] ∨ settings.allowTrailing = true) ∧
      text = p.asm.text := by
  cases hd : (decode script).value with
  | error e => simp [asm_of_decode_error hd]
  | ok p =>
    rw [asm_of_decode hd, map_eq_ok_iff]
    simp only [accept_eq_ok_iff, Except.ok.injEq, exists_eq_left', and_assoc, exists_and_left,
      exists_eq_left]

theorem tokens_of_decode (h : (decode script).value = .ok p)
    (hp : p.cursor.unread = [] ∨ settings.allowTrailing = true) :
    (tokens settings script).value = .ok p.asm.tokens := by
  change ((decode script).value.bind (accept settings)).map Asm.tokens = _
  rw [h]
  exact map_eq_ok_iff.2 ⟨p.asm, accept_eq_ok_iff.2 ⟨hp, rfl⟩, rfl⟩

theorem assembled?_of_decode (h : (decode script).value = .ok p) :
    assembled? p.asm.tokens = some (script.take p.cursor.position) := by
  obtain ⟨k, -, hk⟩ := decode_eq_ok_iff.1 h
  obtain ⟨bytes, found, ⟨hm, ht⟩, ha⟩ := Decoder.spells_ofKind k _ _ _ hk
  have hscript : script = bytes ++ p.cursor.unread := hm.1
  have hpos : p.cursor.position = bytes.length := hm.position.trans (Nat.zero_add _)
  rw [hpos, hscript, List.take_left' rfl, ht]
  exact ha

theorem assembled?_of_decode_all (h : (decode script).value = .ok p) (hp : p.cursor.unread = []) :
    assembled? p.asm.tokens = some script := by
  have hsize := size_of_decode h
  have hpos : p.cursor.position = script.length := by
    rw [Cursor.remaining, hp] at hsize
    exact hsize
  rw [assembled?_of_decode h, hpos, List.take_length]

theorem words_of_decode (h : (decode script).value = .ok p) :
    p.asm.tokens ≠ [] ∧ ∀ token ∈ p.asm.tokens, Word token := by
  obtain ⟨s, rest, hs, -, rfl⟩ := decode_eq_ok_iff_standard.1 h
  exact ⟨s.tokens_ne_nil, hs.word⟩

/-- Cut at its spaces, the text falls into the tokens it was joined from. -/
theorem split_text {asm : Asm} (hne : asm.tokens ≠ []) (hw : ∀ token ∈ asm.tokens, Word token) :
    (asm.text.split ' ').toList.map String.Slice.copy = asm.tokens := by
  have hspace : ∀ token ∈ asm.tokens, ' ' ∉ token.toList := fun token ht => (hw token ht).2
  have hsplit := String.toList_split_intercalate hspace
  rw [if_neg hne] at hsplit
  rw [Asm.text_eq_intercalate hw]
  exact hsplit

/-- The text of a script is its tokens, they can be told apart in it, and they are assembled into the bytes
that were decoded. Where all bytes have to be, no other script has this text. -/
theorem asm_loses_nothing (h : (asm settings script).value = .ok text) :
    (∃ found k, (tokens settings script).value = .ok found ∧ consumed script = .ok k ∧
      k ≤ script.length ∧ text = " ".intercalate found ∧
      (text.split ' ').toList.map String.Slice.copy = found ∧ (∀ token ∈ found, Word token) ∧
      assembled? found = some (script.take k)) ∧
    (settings.allowTrailing = false →
      ∀ other, (asm settings other).value = .ok text → other = script) := by
  obtain ⟨p, hp, hend, rfl⟩ := asm_eq_ok_iff_decode.1 h
  obtain ⟨hne, hw⟩ := words_of_decode hp
  have hsize := size_of_decode hp
  have hk : consumed script = .ok p.cursor.position := by
    rw [consumed, hp]
    rfl
  refine ⟨⟨p.asm.tokens, p.cursor.position, tokens_of_decode hp hend, hk, by omega,
    Asm.text_eq_intercalate hw, split_text hne hw, hw, assembled?_of_decode hp⟩, ?_⟩
  intro hstrict other ho
  obtain ⟨q, hq, hend', htext⟩ := asm_eq_ok_iff_decode.1 ho
  obtain ⟨hne', hw'⟩ := words_of_decode hq
  have htokens : q.asm.tokens = p.asm.tokens := by
    rw [← split_text hne hw, ← split_text hne' hw', htext]
  have hscript := assembled?_of_decode_all hp (hend.resolve_right (by simp [hstrict]))
  have hother := assembled?_of_decode_all hq (hend'.resolve_right (by simp [hstrict]))
  rw [htokens, hscript] at hother
  exact (Option.some.inj hother).symm

theorem asm_loses_nothing_carrier :
    ((asm ⟨true⟩ [0x6a, 0x01, 0xff, 0x07]).value = .ok "OP_RETURN OP_PUSHBYTES_1 ff" ∧
      ∃ found, (tokens ⟨true⟩ [0x6a, 0x01, 0xff, 0x07]).value = .ok found ∧
        assembled? found = some [0x6a, 0x01, 0xff]) ∧
    (asm {} [0x6a, 0x01, 0xff]).value = .ok "OP_RETURN OP_PUSHBYTES_1 ff" ∧
      ∀ other, (asm {} other).value = .ok "OP_RETURN OP_PUSHBYTES_1 ff" →
        other = [0x6a, 0x01, 0xff] := by
  have hlax : (asm ⟨true⟩ [0x6a, 0x01, 0xff, 0x07]).value = .ok "OP_RETURN OP_PUSHBYTES_1 ff" := by
    rfl
  have hstrict : (asm {} [0x6a, 0x01, 0xff]).value = .ok "OP_RETURN OP_PUSHBYTES_1 ff" := by
    rfl
  have hconsumed : consumed [0x6a, 0x01, 0xff, 0x07] = .ok 3 := by
    rfl
  obtain ⟨found, k, hf, hk, -, -, -, -, ha⟩ := (asm_loses_nothing hlax).1
  obtain rfl := Except.ok.inj (hk.symm.trans hconsumed)
  exact ⟨⟨hlax, found, hf, ha⟩, hstrict, (asm_loses_nothing hstrict).2 rfl⟩

end Text

end CoinWire.Script
