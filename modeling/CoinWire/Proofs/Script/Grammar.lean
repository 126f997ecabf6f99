import CoinWire.Proofs.Script.Templates
import CoinWire.Proofs.Script.Tokens
import CoinWire.Script.Reading

/-!
The grammar of scripts that have an assembly. A standard script is told by its first two opcodes and is
then just what the template of its kind takes; no other script is taken by any template it could be given
to.
-/

namespace CoinWire.Script

theorem kind_of_leading {first : UInt8} {rest : Bytes} {k : Kind}
    (h : Kind.ofLeading? (.ofByte first) = some k) : kind (first :: rest) = .ok k := by
  simp only [kind, Cursor.kind, Cursor.start, h]

theorem ofLeading?_of_number? {op : Opcode} {n : Int} (h : op.number? = some n) :
    Kind.ofLeading? op = none := by
  obtain ⟨kind, value⟩ := op
  cases kind with
  | one | small => simp [Kind.ofLeading?]
  | zero | push | dup | hash160 | equal | equalVerify | checkSig | checkMultisig | ret
    | unsupported => cases h

theorem kind_of_number {m : Nat} (h1 : 1 ≤ m) (h16 : m ≤ 16) (rest : Bytes) :
    kind (Standard.number m :: 65 :: rest) = .ok .multisig := by
  have hn : (Opcode.ofByte (Standard.number m)).number? = some (m : Int) :=
    Decoder.taken_number_iff.2 ⟨m, rfl, h1, h16, rfl⟩
  have hl := ofLeading?_of_number? hn
  have hz : Opcode.ofByte (Standard.number m) ≠ ⟨.zero, none⟩ := by
    intro h
    rw [h] at hn
    cases hn
  have hp : ¬ (Opcode.ofByte (Standard.number m) = ⟨.one, none⟩ ∧
      Opcode.ofByte 65 = ⟨.push, some 32⟩) := by
    intro h
    exact absurd h.2 (by decide)
  simp only [kind, Cursor.kind, Cursor.start, hl, if_neg hz, hn, Option.isSome_some, if_true,
    if_neg hp]

theorem kind_bytes_append {s : Standard} (hs : s.Valid) (rest : Bytes) :
    kind (s.bytes ++ rest) = .ok s.kind := by
  cases s with
  | p2pk key =>
    have hl : key.length = 65 := hs
    rw [Standard.bytes, Standard.pushed, hl]
    exact kind_of_leading rfl
  | p2pkh hash => exact kind_of_leading rfl
  | p2sh hash => exact kind_of_leading rfl
  | p2wpkh hash =>
    have hl : hash.length = 20 := hs
    rw [Standard.bytes, Standard.pushed, hl]
    rfl
  | p2wsh hash =>
    have hl : hash.length = 32 := hs
    rw [Standard.bytes, Standard.pushed, hl]
    rfl
  | p2tr key =>
    have hl : key.length = 32 := hs
    rw [Standard.bytes, Standard.pushed, hl]
    rfl
  | multisig required keys =>
    obtain ⟨h1, hr, h16, hl⟩ := hs
    cases keys with
    | nil =>
      simp only [List.length_nil] at hr
      omega
    | cons key keys =>
      have hkey := hl key (List.mem_cons_self ..)
      rw [Standard.bytes, List.flatMap_cons, Standard.pushed, hkey]
      exact kind_of_number h1 (by omega) _
  | dataCarrier data => exact kind_of_leading rfl

theorem decode_eq_ok_iff {script : Bytes} {p : Progress} : (decode script).value = .ok p ↔
    ∃ k, kind script = .ok k ∧ Decoder.ofKind k (.start script) = .ok () p := by
  rw [decode]
  cases kind script with
  | error e => simp
  | ok k =>
    simp only [Logged.value_bind, Except.ok.injEq, exists_eq_left']
    cases Decoder.ofKind k (.start script) with
    | error e q => simp
    | ok a q => simp

theorem accept_eq_ok_iff {settings : Settings} {p : Progress} {asm : Asm} :
    accept settings p = .ok asm ↔
      (p.cursor.unread = [] ∨ settings.allowTrailing = true) ∧ asm = p.asm := by
  have hend : p.cursor.atEnd = true ↔ p.cursor.unread = [] := List.isEmpty_iff
  rw [accept, ← hend]
  by_cases h : p.cursor.atEnd = true ∨ settings.allowTrailing = true
  · rw [if_pos h, and_iff_right h, Except.ok.injEq, eq_comm]
  · rw [if_neg h]
    simp [h]

/-- What is left of a script that starts with a standard one. -/
def Standard.progress (s : Standard) (rest : Bytes) : Progress :=
  ⟨⟨s.bytes.reverse, rest⟩, ⟨s.tokens⟩⟩

theorem decode_eq_ok_iff_standard {script : Bytes} {p : Progress} :
    (decode script).value = .ok p ↔ ∃ (s : Standard) (rest : Bytes), s.Valid ∧
      script = s.bytes ++ rest ∧ p = s.progress rest := by
  rw [decode_eq_ok_iff]
  constructor
  · intro h
    obtain ⟨k, -, hd⟩ := h
    obtain ⟨_, _, ⟨s, -, hv, rfl, rfl⟩, ⟨hu, hp⟩, ht⟩ := (Decoder.takes_ofKind k _ _ _).1 hd
    exact ⟨s, p.cursor.unread, hv, hu, Progress.ext_iff.2 ⟨hp.trans (List.append_nil _), rfl, ht⟩⟩
  · intro h
    obtain ⟨s, rest, hv, rfl, rfl⟩ := h
    refine ⟨s.kind, kind_bytes_append hv rest, (Decoder.takes_ofKind s.kind _ _ _).2 ?_⟩
    exact ⟨s.bytes, s.tokens, ⟨s, rfl, hv, rfl, rfl⟩, ⟨rfl, (List.append_nil _).symm⟩, rfl⟩

theorem assemble_eq_ok_iff {settings : Settings} {script : Bytes} {asm : Asm} :
    (assemble settings script).value = .ok asm ↔
      ∃ (s : Standard) (rest : Bytes), s.Valid ∧ script = s.bytes ++ rest ∧
        (rest = [] ∨ settings.allowTrailing = true) ∧ asm.tokens = s.tokens := by
  have hbind : (assemble settings script).value = .ok asm ↔
      ∃ p, (decode script).value = .ok p ∧ accept settings p = .ok asm := by
    exact bind_eq_ok_iff
  rw [hbind]
  constructor
  · intro h
    obtain ⟨p, hp, ha⟩ := h
    obtain ⟨s, rest, hv, rfl, rfl⟩ := decode_eq_ok_iff_standard.1 hp
    obtain ⟨hr, rfl⟩ := accept_eq_ok_iff.1 ha
    exact ⟨s, rest, hv, rfl, hr, rfl⟩
  · intro h
    obtain ⟨s, rest, hv, rfl, hr, ht⟩ := h
    refine ⟨s.progress rest, decode_eq_ok_iff_standard.2 ⟨s, rest, hv, rfl, rfl⟩, ?_⟩
    exact accept_eq_ok_iff.2 ⟨hr, congrArg Asm.mk ht⟩

theorem asm_eq_ok_iff_assemble {settings : Settings} {script : Bytes} {text : String} :
    (asm settings script).value = .ok text ↔
      ∃ done, (assemble settings script).value = .ok done ∧ text = done.text := by
  exact map_eq_ok_iff

/-- The scripts with an assembly, and what it is. All others fail. -/
theorem asm_eq_ok_iff (script : Bytes) :
    (∀ text, (asm {} script).value = .ok text ↔
      ∃ s : Standard, s.Valid ∧ script = s.bytes ∧ text = " ".intercalate s.tokens) ∧
    ((∃ e, (asm {} script).value = .error e) ↔ ∀ s : Standard, s.Valid → script ≠ s.bytes) := by
  have hmap (text : String) : (asm {} script).value = .ok text ↔
      ∃ done, (assemble {} script).value = .ok done ∧ text = done.text := by
    exact map_eq_ok_iff
  have hok (text : String) : (asm {} script).value = .ok text ↔
      ∃ s : Standard, s.Valid ∧ script = s.bytes ∧ text = " ".intercalate s.tokens := by
    rw [hmap]
    constructor
    · intro h
      obtain ⟨done, hd, rfl⟩ := h
      obtain ⟨s, rest, hv, rfl, hr, ht⟩ := assemble_eq_ok_iff.1 hd
      obtain rfl := hr.resolve_right nofun
      refine ⟨s, hv, List.append_nil _, ?_⟩
      rw [← ht]
      exact Asm.text_eq_intercalate (ht ▸ hv.word)
    · intro h
      obtain ⟨s, hv, rfl, rfl⟩ := h
      exact ⟨⟨s.tokens⟩, assemble_eq_ok_iff.2 ⟨s, [], hv, (List.append_nil _).symm, .inl rfl, rfl⟩,
        (Asm.text_eq_intercalate hv.word).symm⟩
  refine ⟨hok, ?_⟩
  cases hv : (asm {} script).value with
  | error e =>
    refine ⟨fun _ s hs hb => ?_, fun _ => ⟨e, rfl⟩⟩
    cases hv.symm.trans ((hok _).2 ⟨s, hs, hb, rfl⟩)
  | ok text =>
    obtain ⟨s, hs, hb, -⟩ := (hok text).1 hv
    refine ⟨fun h => ?_, fun h => absurd hb (h s hs)⟩
    obtain ⟨e, he⟩ := h
    cases he

example : (asm {} [0x6a, 0x01, 0xff]).value = .ok "OP_RETURN OP_PUSHBYTES_1 ff" := by
  rfl

theorem kind_of_taken {script : Bytes} {k : Kind} {p : Progress}
    (h : Decoder.ofKind k (.start script) = .ok () p) : kind script = .ok k := by
  obtain ⟨_, _, ⟨s, hk, hv, rfl, -⟩, ⟨hu, -⟩, -⟩ := (Decoder.takes_ofKind k _ _ _).1 h
  have hs : script = s.bytes ++ p.cursor.unread := hu
  rw [hs, ← hk]
  exact kind_bytes_append hv _

theorem assemble_permissive_iff {script : Bytes} {done : Asm} :
    (assemble ⟨true⟩ script).value = .ok done ↔
      ∃ k p, Decoder.ofKind k (.start script) = .ok () p ∧ done = p.asm := by
  have hbind : (assemble ⟨true⟩ script).value = .ok done ↔
      ∃ p, (decode script).value = .ok p ∧ accept ⟨true⟩ p = .ok done := by
    exact bind_eq_ok_iff
  rw [hbind]
  constructor
  · intro h
    obtain ⟨p, hp, ha⟩ := h
    obtain ⟨k, -, hd⟩ := decode_eq_ok_iff.1 hp
    exact ⟨k, p, hd, (accept_eq_ok_iff.1 ha).2⟩
  · intro h
    obtain ⟨k, p, hd, hp⟩ := h
    exact ⟨p, decode_eq_ok_iff.2 ⟨k, kind_of_taken hd, hd⟩, accept_eq_ok_iff.2 ⟨.inr rfl, hp⟩⟩

/-- Telling the kind by two opcodes agrees with trying every template: no script is taken by two of them,
and the one that takes it is the one it is given to. -/
theorem dispatch_agrees (script : Bytes) :
    (∀ k p, Decoder.ofKind k (.start script) = .ok () p → kind script = .ok k) ∧
    (∀ k l p q, Decoder.ofKind k (.start script) = .ok () p →
      Decoder.ofKind l (.start script) = .ok () q → k = l) ∧
    ∀ text, (asm ⟨true⟩ script).value = .ok text ↔
      ∃ k p, Decoder.ofKind k (.start script) = .ok () p ∧ text = p.asm.text := by
  refine ⟨fun k p h => kind_of_taken h, fun k l p q hp hq => ?_, fun text => ?_⟩
  · have hk := kind_of_taken hp
    have hl := kind_of_taken hq
    exact Except.ok.inj (hk.symm.trans hl)
  · rw [asm_eq_ok_iff_assemble]
    simp only [assemble_permissive_iff]
    constructor
    · intro h
      obtain ⟨_, ⟨k, p, hd, rfl⟩, ht⟩ := h
      exact ⟨k, p, hd, ht⟩
    · intro h
      obtain ⟨k, p, hd, ht⟩ := h
      exact ⟨p.asm, ⟨k, p, hd, rfl⟩, ht⟩

end CoinWire.Script
