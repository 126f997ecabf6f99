import CoinWire.Proofs.Script.Stops

/-!
The multisig template decided from the bytes alone. Behind the threshold as many keys are taken as stand
there, and the first byte that is not the push of a complete key decides what becomes of the script: a cut
key, a byte that is no number of keys, or a number that is compared with the keys found and with the
threshold.
-/

namespace CoinWire.Script

/-- Complete keys, each with its length in front, and what stands behind them. -/
structure KeyRun (body : Bytes) (keys : List Bytes) (rest : Bytes) : Prop where
  sized : ∀ key ∈ keys, key.length = 65
  split : body = keys.flatMap Standard.pushed ++ rest

/-- A run of keys that no other run from the same place exceeds. -/
structure LongestRun (body : Bytes) (keys : List Bytes) (rest : Bytes) : Prop
    extends KeyRun body keys rest where
  longest {others : List Bytes} {behind : Bytes} :
    KeyRun body others behind → others.length ≤ keys.length

section Run

variable {body rest behind key : Bytes} {keys others : List Bytes}

theorem length_pushes (hs : ∀ key ∈ keys, key.length = 65) :
    (keys.flatMap Standard.pushed).length = 66 * keys.length := by
  induction keys with
  | nil => rfl
  | cons key keys ih =>
    obtain ⟨hkey, hs⟩ := List.forall_mem_cons.1 hs
    rw [List.flatMap_cons, List.length_append, Standard.length_pushed, hkey, ih hs,
      List.length_cons]
    omega

theorem KeyRun.nil (body : Bytes) : KeyRun body [] body :=
  ⟨List.forall_mem_nil _, rfl⟩

theorem KeyRun.cons (hkey : key.length = 65) (h : KeyRun body keys rest) :
    KeyRun (Standard.pushed key ++ body) (key :: keys) rest := by
  refine ⟨List.forall_mem_cons.2 ⟨hkey, h.sized⟩, ?_⟩
  rw [h.split, List.flatMap_cons, List.append_assoc]

/-- Pushes of keys are equally long, so that only one key can be first. -/
theorem KeyRun.tail (hkey : key.length = 65)
    (h : KeyRun (Standard.pushed key ++ body) (behind :: keys) rest) :
    behind = key ∧ KeyRun body keys rest := by
  obtain ⟨hs, hb⟩ := h
  obtain ⟨hbehind, hs⟩ := List.forall_mem_cons.1 hs
  rw [List.flatMap_cons, List.append_assoc] at hb
  have hl : (Standard.pushed key).length = (Standard.pushed behind).length := by
    rw [Standard.length_pushed, Standard.length_pushed, hkey, hbehind]
  obtain ⟨hpush, hbody⟩ := List.append_inj hb hl
  exact ⟨(List.cons.inj hpush).2.symm, hs, hbody⟩

theorem LongestRun.length_lt (h : LongestRun body keys (65 :: behind)) : behind.length < 65 := by
  by_contra hl
  have hkey : (behind.take 65).length = 65 := List.length_take_of_le (Nat.not_lt.1 hl)
  have hnext : KeyRun body (keys ++ [behind.take 65]) (behind.drop 65) := by
    constructor
    · intro key hk
      rcases List.mem_append.1 hk with hk | hk
      · exact h.sized key hk
      · rw [List.mem_singleton.1 hk, hkey]
    · have hpush : 65 :: behind = Standard.pushed (behind.take 65) ++ behind.drop 65 := by
        rw [Standard.pushed, hkey, List.cons_append, List.take_append_drop]
        rfl
      rw [h.split, hpush, List.flatMap_append, List.flatMap_singleton, List.append_assoc]
  have hle := h.longest hnext
  rw [List.length_append, List.length_singleton] at hle
  omega

theorem exists_longestRun (body : Bytes) : ∃ keys rest, LongestRun body keys rest := by
  -- on the length of the body, which a key in front shortens
  induction hn : body.length using Nat.strongRecOn generalizing body with
  | ind n ih =>
    subst hn
    by_cases hfirst : ∃ key rest : Bytes, key.length = 65 ∧ body = Standard.pushed key ++ rest
    · obtain ⟨key, rest, hkey, rfl⟩ := hfirst
      have hlt : rest.length < (Standard.pushed key ++ rest).length := by
        rw [List.length_append, Standard.length_pushed]
        omega
      obtain ⟨keys, last, hrun⟩ := ih rest.length hlt rest rfl
      refine ⟨key :: keys, last, hrun.toKeyRun.cons hkey, ?_⟩
      intro others behind hothers
      cases others with
      | nil => exact Nat.zero_le _
      | cons other others => exact Nat.succ_le_succ (hrun.longest (hothers.tail hkey).2)
    · refine ⟨[], body, KeyRun.nil body, ?_⟩
      intro others behind hothers
      cases others with
      | nil => exact Nat.le_refl 0
      | cons other others =>
        refine absurd ⟨other, others.flatMap Standard.pushed ++ behind, ?_, ?_⟩ hfirst
        · exact hothers.sized other (List.mem_cons_self ..)
        · rw [hothers.split, List.flatMap_cons, List.append_assoc]

theorem KeyRun.unique (h : KeyRun body keys rest) (ho : KeyRun body others behind)
    (hl : others.length = keys.length) : others = keys ∧ behind = rest := by
  induction keys generalizing body others with
  | nil =>
    obtain rfl := List.length_eq_zero_iff.1 hl
    exact ⟨rfl, ho.split.symm.trans h.split⟩
  | cons key keys ih =>
    cases others with
    | nil => cases hl
    | cons other others =>
      have hkey := h.sized key (List.mem_cons_self ..)
      have hbody : body = Standard.pushed key ++ (keys.flatMap Standard.pushed ++ rest) := by
        rw [h.split, List.flatMap_cons, List.append_assoc]
      subst hbody
      obtain ⟨rfl, htail⟩ := ho.tail hkey
      obtain ⟨rfl, rfl⟩ := ih (h.tail hkey).2 htail (Nat.succ.inj hl)
      exact ⟨rfl, rfl⟩

theorem existsUnique_longestRun (body : Bytes) :
    ∃! run : List Bytes × Bytes, LongestRun body run.1 run.2 := by
  obtain ⟨keys, rest, hrun⟩ := exists_longestRun body
  refine ⟨(keys, rest), hrun, ?_⟩
  intro other hother
  have hl := Nat.le_antisymm (hrun.longest hother.toKeyRun) (hother.longest hrun.toKeyRun)
  obtain ⟨hkeys, hrest⟩ := hrun.toKeyRun.unique hother.toKeyRun hl
  exact Prod.ext hkeys hrest

end Run

def IsNumber (b : UInt8) : Prop := 0x51 ≤ b.toNat ∧ b.toNat ≤ 0x60

instance : DecidablePred IsNumber := fun b => by
  unfold IsNumber
  infer_instance

theorem number?_eq_none_iff {b : UInt8} : (Opcode.ofByte b).number? = none ↔ ¬ IsNumber b := by
  rw [Option.eq_none_iff_forall_ne_some, IsNumber]
  simp only [ne_eq, Opcode.number?_ofByte_iff, Opcode.smallBase]
  constructor
  · intro h hb
    exact h (b.toNat - 0x50) (by omega)
  · intro h n hn
    omega

theorem IsNumber.eq_number {b : UInt8} (h : IsNumber b) :
    (1 ≤ b.toNat - 0x50 ∧ b.toNat - 0x50 ≤ 16) ∧ b = Standard.number (b.toNat - 0x50) := by
  obtain ⟨h1, h16⟩ := h
  refine ⟨by omega, ?_⟩
  rw [Standard.number, Nat.add_sub_cancel' (by omega), UInt8.ofNat_toNat]

/-- What becomes of a script once it has said how many keys there are, by what stands behind them at the
position. -/
def countVerdict (required observed declared position : Nat) (behind : Bytes) :
    Except Failure Unit :=
  if observed ≠ declared then .error (.keyCount declared observed)
  else if declared < required then .error (.threshold required declared)
  else match behind with
    | [] => .error (.unexpectedEnd 1 position 0)
    | last :: _ =>
      if last = 0xae then .ok () else .error (.mismatch "OP_CHECKMULTISIG" last.toNat)

def multisigVerdict (required observed position : Nat) : Bytes → Except Failure Unit
  | [] => .error (.unexpectedEnd 1 position 0)
  | b :: behind =>
    if b = 65 then .error (.unexpectedEnd 65 (position + 1 : Nat) behind.length)
    else if IsNumber b then countVerdict required observed (b.toNat - 0x50) (position + 1) behind
    else .error (.multisigBody b.toNat)

/-- The template does at `p` what the verdict says. Where it succeeds, it has passed the whole script and
emitted all its tokens. -/
def MultisigDecides (p : Progress) (required : Nat) (keys : List Bytes)
    (verdict : Except Failure Unit) : Prop :=
  match verdict with
  | .error e => ∃ q, Decoder.multisig p = .error e q
  | .ok () => ∃ q, Decoder.multisig p = .ok () q ∧ q.cursor.data = p.cursor.data ∧
      q.cursor.position = p.cursor.position + 66 * keys.length + 3 ∧
      q.asm.tokens = p.asm.tokens ++ (Standard.multisig required keys).tokens

namespace Decoder

section Verdict

variable {p : Progress} {b d : UInt8} {body v w : Bytes} {t : List String} {keys : List Bytes}
  {e : Failure}

theorem multisig_at_keys (hb : IsNumber b) (hu : p.cursor.unread = b :: body)
    (hrun : KeyRun body keys (v ++ w))
    (hf : ∀ c : Cursor, c.position = p.cursor.position + 1 + 66 * keys.length + v.length →
      c.unread = w → KeyFails e v t c) : ∃ q, multisig p = .error e q := by
  obtain ⟨hr, hnum⟩ := hb.eq_number
  refine ⟨_, fails_multisig.run (.keys hr hrun.sized (hf _ ?_ rfl)) ?_⟩
  · rw [Progress.position_after, List.length_cons, List.length_append, length_pushes hrun.sized]
    omega
  · rw [hu, hrun.split, ← hnum, List.cons_append, List.append_assoc]

theorem multisig_at_count (hb : IsNumber b) (hd : IsNumber d) (hu : p.cursor.unread = b :: body)
    (hrun : KeyRun body keys (d :: (v ++ w)))
    (hf : ∀ c : Cursor, c.position = p.cursor.position + 1 + 66 * keys.length + 1 + v.length →
      c.unread = w →
      CountFails (b.toNat - 0x50 : Nat) keys.length (d.toNat - 0x50 : Nat) e v t c) :
    ∃ q, multisig p = .error e q := by
  obtain ⟨hr, hnum⟩ := hb.eq_number
  obtain ⟨hcount, hdnum⟩ := hd.eq_number
  refine ⟨_, fails_multisig.run (.counted hr hrun.sized hcount (hf _ ?_ rfl)) ?_⟩
  · rw [Progress.position_after, List.length_cons, List.length_append, List.length_cons,
      length_pushes hrun.sized]
    omega
  · rw [hu, hrun.split, ← hnum, ← hdnum, List.cons_append, List.append_assoc, List.cons_append]

theorem multisig_accepts {behind : Bytes} (hb : IsNumber b) (hd : IsNumber d)
    (hu : p.cursor.unread = b :: body) (hrun : KeyRun body keys (d :: 0xae :: behind))
    (hcount : keys.length = d.toNat - 0x50) (hr : b.toNat - 0x50 ≤ d.toNat - 0x50) :
    MultisigDecides p (b.toNat - 0x50) keys (.ok ()) := by
  obtain ⟨hrequired, hnum⟩ := hb.eq_number
  obtain ⟨hdeclared, hdnum⟩ := hd.eq_number
  have hvalid : (Standard.multisig (b.toNat - 0x50) keys).Valid :=
    ⟨hrequired.1, by omega, by omega, hrun.sized⟩
  have hbytes : p.cursor.unread = (Standard.multisig (b.toNat - 0x50) keys).bytes ++ behind := by
    rw [hu, hrun.split, Standard.bytes, hcount, ← hnum, ← hdnum]
    simp only [List.cons_append, List.append_assoc, List.nil_append]
  have hshaped : Shaped .multisig _ _ := ⟨_, rfl, hvalid, rfl, rfl⟩
  refine ⟨_, takes_multisig.run hshaped hbytes, Progress.data_after hbytes, ?_, rfl⟩
  rw [Progress.position_after, Standard.bytes, List.length_cons, List.length_append,
    length_pushes hrun.sized]
  simp only [List.length_cons, List.length_nil]
  omega

/-- The number is compared with the keys first and then with the threshold, before another byte is read. -/
theorem multisig_of_count {behind : Bytes} (hb : IsNumber b) (hd : IsNumber d)
    (hu : p.cursor.unread = b :: body) (hrun : KeyRun body keys (d :: behind)) :
    MultisigDecides p (b.toNat - 0x50) keys (countVerdict (b.toNat - 0x50) keys.length
      (d.toNat - 0x50) (p.cursor.position + 1 + 66 * keys.length + 1) behind) := by
  unfold countVerdict
  by_cases hcount : keys.length = d.toNat - 0x50
  · rw [if_neg (not_not.2 hcount)]
    by_cases hfew : d.toNat - 0x50 < b.toNat - 0x50
    · rw [if_pos hfew]
      apply multisig_at_count (v := []) (w := behind) hb hd hu hrun
      intro c _ _
      exact CountFails.threshold (congrArg _ hcount) (Int.ofNat_lt.2 hfew)
    · rw [if_neg hfew]
      have hle : ((b.toNat - 0x50 : Nat) : Int) ≤ (d.toNat - 0x50 : Nat) :=
        Int.ofNat_le.2 (Nat.not_lt.1 hfew)
      cases behind with
      | nil =>
        apply multisig_at_count (v := []) (w := []) hb hd hu hrun
        intro c hp hc
        have hl := Cursor.lacks_of_unread hp hc Int.one_pos
        exact CountFails.last (congrArg _ hcount) hle (Misses.short hl)
      | cons last behind =>
        by_cases hlast : last = 0xae
        · subst hlast
          exact multisig_accepts hb hd hu hrun hcount (Nat.not_lt.1 hfew)
        · simp only [if_neg hlast]
          apply multisig_at_count (v := [last]) (w := behind) hb hd hu hrun
          intro c _ _
          have hne : Opcode.ofByte last ≠ ⟨.checkMultisig, none⟩ :=
            fun h => hlast ((Opcode.ofByte_named_iff rfl).1 h)
          exact CountFails.last (congrArg _ hcount) hle (Misses.other hne rfl)
  · rw [if_pos hcount]
    apply multisig_at_count (v := []) (w := behind) hb hd hu hrun
    intro c _ _
    exact CountFails.count (mt Int.ofNat_inj.1 hcount)

theorem multisig_of_verdict {rest : Bytes} (hb : IsNumber b) (hu : p.cursor.unread = b :: body)
    (hrun : LongestRun body keys rest) :
    MultisigDecides p (b.toNat - 0x50) keys (multisigVerdict (b.toNat - 0x50) keys.length
      (p.cursor.position + 1 + 66 * keys.length) rest) := by
  cases rest with
  | nil =>
    apply multisig_at_keys (v := []) (w := []) hb hu hrun.toKeyRun
    intro c hp hc
    exact KeyFails.short (Cursor.lacks_of_unread hp hc Int.one_pos)
  | cons d behind =>
    rw [multisigVerdict]
    by_cases hkey : d = 65
    · subst hkey
      have hcut := hrun.length_lt
      rw [if_pos rfl]
      apply multisig_at_keys (v := [65]) (w := behind) hb hu hrun.toKeyRun
      intro c hp hc
      exact KeyFails.key (Cursor.lacks_of_unread hp hc (Int.ofNat_lt.2 hcut))
    · rw [if_neg hkey]
      by_cases hd : IsNumber d
      · rw [if_pos hd]
        exact multisig_of_count hb hd hu hrun.toKeyRun
      · rw [if_neg hd]
        apply multisig_at_keys (v := [d]) (w := behind) hb hu hrun.toKeyRun
        intro c _ _
        exact KeyFails.other hkey (number?_eq_none_iff.2 hd)

end Verdict

end Decoder

theorem multisig_decided (p : Progress) :
    (p.cursor.unread = [] →
      ∃ q, Decoder.multisig p = .error (.unexpectedEnd 1 p.cursor.position 0) q) ∧
    (∀ b body, p.cursor.unread = b :: body → ¬ IsNumber b →
      ∃ q, Decoder.multisig p = .error (.mismatch "OP_1..OP_16" b.toNat) q) ∧
    ∀ b body, p.cursor.unread = b :: body → IsNumber b →
      (∃! run : List Bytes × Bytes, LongestRun body run.1 run.2) ∧
      ∀ keys rest, LongestRun body keys rest →
        MultisigDecides p (b.toNat - 0x50) keys (multisigVerdict (b.toNat - 0x50) keys.length
          (p.cursor.position + 1 + 66 * keys.length) rest) := by
  refine ⟨?_, ?_, ?_⟩
  · intro hu
    have hnothing : p.cursor.unread = [] ++ [] := hu
    refine ⟨_, Decoder.fails_multisig.run (.start ?_) hnothing⟩
    exact Cursor.lacks_of_unread Progress.position_after rfl Int.one_pos
  · intro b body hu hb
    exact ⟨_, Decoder.fails_multisig.run (.noThreshold (number?_eq_none_iff.2 hb)) hu⟩
  · intro b body hu hb
    exact ⟨existsUnique_longestRun body, fun keys rest => Decoder.multisig_of_verdict hb hu⟩

end CoinWire.Script
