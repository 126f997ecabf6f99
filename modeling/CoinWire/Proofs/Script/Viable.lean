import CoinWire.Proofs.Script.Steady

/-!
Where a template runs out of bytes, it could still come to its end. Steps that match something can be
completed one after another, and so can a list of keys as long as its number can be written. Beyond sixteen
keys there is no such number, and the list runs out however far it goes on.
-/

namespace CoinWire.Script

/-- The pushes of the keys `found`, up to sixty-five of the last bytes left out. -/
def KeysBegun (found : List Bytes) (bytes : Bytes) : Prop :=
  (∀ key ∈ found, key.length = 65) ∧
    ∃ rest : Bytes, rest.length ≤ 65 ∧ bytes ++ rest = found.flatMap Standard.pushed

/-- A small integer and the pushes of more than sixteen keys, the last of them perhaps not to its end. -/
def Overfull (bytes : Bytes) : Prop :=
  ∃ (required : Nat) (found : List Bytes) (part : Bytes), 1 ≤ required ∧ required ≤ 16 ∧
    16 < found.length ∧ KeysBegun found part ∧ bytes = Standard.number required :: part

theorem keysBegun_nil : KeysBegun [] [] :=
  ⟨List.forall_mem_nil _, [], Nat.zero_le 65, rfl⟩

theorem keysBegun_part {part : Bytes} (h : part.length < 65) :
    KeysBegun [part ++ List.replicate (65 - part.length) 0] (65 :: part) := by
  have hkey : (part ++ List.replicate (65 - part.length) 0).length = 65 := by
    rw [List.length_append, List.length_replicate]
    omega
  refine ⟨List.forall_mem_singleton.2 hkey, List.replicate (65 - part.length) 0, ?_, ?_⟩
  · rw [List.length_replicate]
    omega
  · rw [List.flatMap_singleton, Standard.pushed, hkey]
    rfl

section KeysBegun

variable {key bytes : Bytes} {found : List Bytes}

theorem KeysBegun.cons (hkey : key.length = 65) (h : KeysBegun found bytes) :
    KeysBegun (key :: found) (Standard.pushed key ++ bytes) := by
  obtain ⟨hl, rest, hrest, hbytes⟩ := h
  refine ⟨List.forall_mem_cons.2 ⟨hkey, hl⟩, rest, hrest, ?_⟩
  rw [List.append_assoc, hbytes, List.flatMap_cons]

/-- Of the first key at least the length is there. -/
theorem KeysBegun.exists_cons (h : KeysBegun (key :: found) bytes) :
    ∃ part, bytes = 65 :: part := by
  obtain ⟨hl, rest, hrest, hbytes⟩ := h
  have hkey := hl key (List.mem_cons_self ..)
  rw [List.flatMap_cons, Standard.pushed, hkey] at hbytes
  cases bytes with
  | nil =>
    have hsize := congrArg List.length hbytes
    simp only [List.nil_append, List.cons_append, List.length_cons, List.length_append,
      hkey] at hsize
    omega
  | cons b part =>
    obtain ⟨rfl, -⟩ := List.cons.inj hbytes
    exact ⟨part, rfl⟩

end KeysBegun

namespace Decoder

variable {α β : Type} {decoder : Decoder α} {next : α → Decoder β} {p : Progress}

/-- There are fewer bytes than `decoder` reads. -/
def RunsOut (decoder : Decoder α) (p : Progress) : Prop :=
  ∃ e q, decoder p = .error e q ∧ e.isEnd = true

/-- Some bytes behind the unread ones make up just what `decoder` takes. -/
def Completes (decoder : Decoder α) (p : Progress) : Prop :=
  ∃ more a q, decoder (p.extend more) = .ok a q ∧ q.cursor.unread = []

/-- Where `decoder` runs out, it can be completed. -/
def Resumes (decoder : Decoder α) (p : Progress) : Prop :=
  RunsOut decoder p → Completes decoder p

/-- Whatever `decoder` has not found wrong so far can be completed, also when nothing is there yet. -/
def Viable (decoder : Decoder α) : Prop :=
  ∀ p, p.cursor.unread = [] ∨ RunsOut decoder p → Completes decoder p

theorem runsOut_bind_iff : RunsOut (decoder >>= next) p ↔
    RunsOut decoder p ∨ ∃ a m, decoder p = .ok a m ∧ RunsOut (next a) m := by
  simp only [RunsOut, run_bind_eq_error_iff]
  constructor
  · intro h
    rcases h with ⟨e, q, h | ⟨a, m, ha, h⟩, he⟩
    · exact .inl ⟨e, q, h, he⟩
    · exact .inr ⟨a, m, ha, e, q, h, he⟩
  · intro h
    rcases h with ⟨e, q, h, he⟩ | ⟨a, m, ha, e, q, h, he⟩
    · exact ⟨e, q, .inl h, he⟩
    · exact ⟨e, q, .inr ⟨a, m, ha, h⟩, he⟩

theorem not_runsOut_of_ok {a : α} {q : Progress} (h : decoder p = .ok a q) :
    ¬ RunsOut decoder p := by
  intro hr
  obtain ⟨e, m, he, -⟩ := hr
  cases h.symm.trans he

theorem Steady.runsOut (h : Steady decoder p) {more : Bytes} (hm : more ≠ []) {a : α} {q : Progress}
    (ha : decoder (p.extend more) = .ok a q) (hq : q.cursor.unread = []) : RunsOut decoder p := by
  cases hr : decoder p with
  | ok b m =>
    have hb := (h.ok hr).2 more
    obtain ⟨-, rfl⟩ := EStateM.Result.ok.inj (ha.symm.trans hb)
    exact absurd (List.append_eq_nil_iff.1 hq).2 hm
  | error e m =>
    refine ⟨e, m, hr, ?_⟩
    -- any other failure would still be there with the missing bytes behind
    by_contra he
    have hb := h.settled hr (Bool.eq_false_iff.2 he) more
    cases ha.symm.trans hb

theorem Takes.run_all {taken : α → Bytes → List String → Prop} (h : Takes decoder taken) {a : α}
    {tokens : List String} (ha : taken a p.cursor.unread tokens) :
    ∃ q, decoder p = .ok a q ∧ q.cursor.unread = [] :=
  ⟨_, h.run ha (List.append_nil _).symm, Progress.unread_after⟩

theorem Takes.completes {taken : α → Bytes → List String → Prop} (h : Takes decoder taken)
    {more : Bytes} {a : α} {tokens : List String} (ha : taken a (p.cursor.unread ++ more) tokens) :
    Completes decoder p := by
  obtain ⟨q, hq, hu⟩ := h.run_all (p := p.extend more) ha
  exact ⟨more, a, q, hq, hu⟩

theorem Completes.bind {more : Bytes} {a : α} {m : Progress} (hs : Steady decoder (p.extend more))
    (ha : decoder (p.extend more) = .ok a m) (hn : Completes (next a) m) :
    Completes (decoder >>= next) p := by
  obtain ⟨rest, b, q, hb, hq⟩ := hn
  have ha := (hs.ok ha).2 rest
  rw [Progress.extend_append] at ha
  exact ⟨more ++ rest, b, q, run_bind_eq_ok_iff.2 ⟨a, m.extend rest, ha, hb⟩, hq⟩

theorem Completes.after {a : α} {m : Progress} (hs : Steady decoder p) (ha : decoder p = .ok a m)
    (hn : Completes (next a) m) : Completes (decoder >>= next) p := by
  rw [← p.extend_nil] at hs ha
  exact Completes.bind hs ha hn

theorem Viable.bind (h : Viable decoder) (hs : ∀ p, Steady decoder p)
    (hn : ∀ a, Viable (next a)) : Viable (decoder >>= next) := by
  have hbegun (p : Progress) (hp : p.cursor.unread = [] ∨ RunsOut decoder p) :
      Completes (decoder >>= next) p := by
    obtain ⟨more, a, m, ha, hm⟩ := h p hp
    exact Completes.bind (hs _) ha (hn a m (.inl hm))
  intro p hp
  rcases hp with hp | hp
  · exact hbegun p (.inl hp)
  · rcases runsOut_bind_iff.1 hp with hp | ⟨a, m, ha, hm⟩
    · exact hbegun p (.inr hp)
    · exact Completes.after (hs p) ha (hn a m (.inr hm))

section Steps

variable {e : Failure} {op : Opcode} {n : Nat}

theorem not_runsOut_throw (he : e.isEnd = false) : ¬ RunsOut (throw e : Decoder α) p := by
  intro h
  obtain ⟨e', q, h, h'⟩ := h
  obtain ⟨rfl, -⟩ := EStateM.Result.error.inj h
  rw [he] at h'
  cases h'

theorem not_runsOut_emit : ¬ RunsOut (emit op) p := by
  cases hm : op.mnemonic with
  | ok name => exact not_runsOut_of_ok (emit_of_ok hm p)
  | error e =>
    rw [emit_of_error hm]
    exact not_runsOut_throw (isEnd_of_mnemonic hm)

theorem not_runsOut_mnemonic : ¬ RunsOut (demand op.mnemonic) p := by
  cases hm : op.mnemonic with
  | ok name => exact not_runsOut_of_ok (q := p) rfl
  | error e => exact not_runsOut_throw (isEnd_of_mnemonic hm)

theorem unread_of_runsOut_opcode (h : RunsOut opcode p) : p.cursor.unread = [] := by
  obtain ⟨⟨past, unread⟩, asm⟩ := p
  cases unread with
  | nil => rfl
  | cons b rest =>
    have hb : opcode ⟨⟨past, b :: rest⟩, asm⟩ = .ok (b, .ofByte b) ⟨⟨b :: past, rest⟩, asm⟩ := by
      rfl
    exact absurd h (not_runsOut_of_ok hb)

theorem unread_of_runsOut_expect (h : RunsOut (expect op) p) : p.cursor.unread = [] := by
  rcases runsOut_bind_iff.1 h with h | ⟨r, m, -, h⟩
  · exact unread_of_runsOut_opcode h
  · simp only at h
    split at h
    · exact absurd h not_runsOut_emit
    · rcases runsOut_bind_iff.1 h with h | ⟨name, k, -, h⟩
      · exact absurd h not_runsOut_mnemonic
      · exact absurd h (not_runsOut_throw rfl)

theorem remaining_of_runsOut_payload (h : RunsOut (payload n) p) : p.cursor.remaining < n := by
  by_contra hn
  rw [Nat.not_lt] at hn
  let q : Progress := ⟨p.cursor.skip n, p.asm.bytes (p.cursor.unread.take n)⟩
  have hl : (p.cursor.unread.take n).length = n := List.length_take_of_le hn
  have hq : p.Advances (p.cursor.unread.take n) [Hex.encode (p.cursor.unread.take n)] q :=
    ⟨⟨(List.take_append_drop n _).symm, rfl⟩, rfl⟩
  have hp : payload n p = .ok (p.cursor.unread.take n) q :=
    (takes_payload n _ _ _).2 ⟨_, _, ⟨congrArg _ hl, rfl, rfl⟩, hq⟩
  exact not_runsOut_of_ok hp h

theorem viable_pure (a : α) : Viable (pure a) := by
  intro p hp
  rcases hp with hp | hp
  · refine ⟨[], a, p, ?_, hp⟩
    rw [Progress.extend_nil]
    rfl
  · exact absurd hp (not_runsOut_of_ok rfl)

theorem viable_payload (n : Nat) : Viable (payload n) := by
  intro p hp
  have hn : p.cursor.remaining ≤ n := by
    rcases hp with hp | hp
    · rw [Cursor.remaining, hp]
      exact Nat.zero_le n
    · exact Nat.le_of_lt (remaining_of_runsOut_payload hp)
  have hl : (p.cursor.unread ++ List.replicate (n - p.cursor.remaining) 0).length = n := by
    rw [List.length_append, List.length_replicate]
    exact Nat.add_sub_cancel' hn
  exact (takes_payload n).completes ⟨congrArg _ hl, rfl, rfl⟩

theorem viable_expect {b : UInt8} {name : String} (hb : Opcode.ofByte b = op)
    (hm : op.mnemonic = .ok name) : Viable (expect op) := by
  intro p hp
  have hu : p.cursor.unread = [] := by
    rcases hp with hp | hp
    · exact hp
    · exact unread_of_runsOut_expect hp
  have htaken : p.cursor.unread ++ [b] = [b] := by
    rw [hu, List.nil_append]
  exact (takes_expect op).completes (a := ()) ⟨b, name, hb, hm, htaken, rfl⟩

theorem viable_push (h1 : 1 ≤ n) (h75 : n ≤ 75) : Viable (push n) := by
  have hop : Opcode.push n = .ok ⟨.push, some (n : Int)⟩ := by
    refine Opcode.push_eq_ok_iff.2 ⟨by omega, ?_, rfl⟩
    simp only [Opcode.longestPush]
    omega
  have hb : Opcode.ofByte (UInt8.ofNat n) = ⟨.push, some (n : Int)⟩ :=
    Opcode.ofByte_pushed_iff.2 ⟨h1, h75, rfl⟩
  have hpush : push n = expect ⟨.push, some (n : Int)⟩ >>= fun _ => payload n := by
    rw [push, hop]
    rfl
  rw [hpush]
  exact (viable_expect hb (Opcode.mnemonic_pushed hb)).bind (steady_expect _) fun _ => viable_payload n

theorem viable_emit {name : String} (hm : op.mnemonic = .ok name) : Viable (emit op) := by
  intro p hp
  have hu : p.cursor.unread ++ [] = [] := by
    rw [List.append_nil]
    exact hp.resolve_right not_runsOut_emit
  exact (takes_emit op).completes (a := ()) ⟨name, hm, hu, rfl⟩

theorem Viable.discard (h : Viable decoder) (hs : ∀ p, Steady decoder p) :
    Viable (discard decoder) := by
  rw [discard_eq_bind]
  exact h.bind hs fun _ => viable_pure ()

end Steps

section Patterns

variable {bytes : Bytes} {tokens : List String}

theorem viable_step {step : Step} (h : step.Matches bytes tokens) : Viable step.decode := by
  cases step with
  | opcode op =>
    obtain ⟨b, name, hb, hm, -, -⟩ := h
    exact viable_expect hb hm
  | push n =>
    obtain ⟨data, rfl, h1, h75, -, -⟩ := h
    simp only [Opcode.longestPush] at h75
    have hpush : Viable (push data.length) := viable_push (by omega) (by omega)
    exact hpush.discard (steady_push _)

theorem viable_pattern {pattern : Pattern} (h : pattern.Matches bytes tokens) :
    Viable pattern.decode := by
  induction pattern generalizing bytes tokens with
  | nil => exact viable_pure ()
  | cons step rest ih =>
    obtain ⟨u, s, v, t, hu, hv, -, -⟩ := h
    exact (viable_step hu).bind (steady_step step) fun _ => ih hv

theorem viable_ofPattern {s : Standard} (hv : s.Valid) {pattern : Pattern}
    (hk : ofKind s.kind = pattern.decode) : Viable (ofKind s.kind) := by
  obtain ⟨q, hs, -⟩ := (takes_ofKind s.kind).run_all (p := .start s.bytes) (a := ())
    ⟨s, rfl, hv, rfl, rfl⟩
  rw [hk] at hs ⊢
  obtain ⟨_, _, hm, -⟩ := (pattern.takes_decode _ _ _).1 hs
  exact viable_pattern hm

end Patterns

theorem resumes_pushed {b : UInt8} {op : Opcode} (hb : Opcode.ofByte b = op) {e : Failure}
    (he : e.isEnd = false) : Resumes (match op.kind, op.value with
      | .push, some length => do
        emit op
        discard (payload length)
      | _, _ => throw e) p := by
  intro h
  obtain ⟨kind, value⟩ := op
  cases kind with
  | push =>
    cases value with
    | none => exact absurd h (not_runsOut_throw he)
    | some length =>
      have hw : Decimal.Writable length := Opcode.writable_ofByte (congrArg Opcode.value hb)
      have hname := Opcode.mnemonic_push hw
      obtain ⟨h1, -, rfl⟩ := Opcode.ofByte_push_iff.1 hb
      have hpayload := (viable_payload b.toNat).discard (steady_payload hw)
      exact (viable_emit hname).bind (steady_emit _) (fun _ => hpayload) p (.inr h)
  | zero | one | small | dup | hash160 | equal | equalVerify | checkSig | checkMultisig | ret
    | unsupported => exact absurd h (not_runsOut_throw he)

theorem viable_dataCarrier : Viable dataCarrier := by
  have hret : Viable (expect ⟨.ret, none⟩) := viable_expect (b := 0x6a) rfl rfl
  refine hret.bind (steady_expect _) fun _ p hp => ?_
  by_cases hu : p.cursor.unread = []
  · have htakes := takes_opcode.bindTaken fun r _ _ hr =>
      takes_pushed hr.1 (.pushExpected r.1.toNat)
    have htaken : p.cursor.unread ++ [1, 0] = [1] ++ [0] := by
      rw [hu]
      rfl
    exact htakes.completes (a := ()) ⟨(1, .ofByte 1), [1], [], [0], _, ⟨rfl, rfl, rfl⟩,
      ⟨[0], rfl, rfl, rfl⟩, htaken, rfl⟩
  · rcases runsOut_bind_iff.1 (hp.resolve_left hu) with h | ⟨r, m, hr, h⟩
    · exact absurd (unread_of_runsOut_opcode h) hu
    · obtain ⟨_, _, ⟨hop, -, -⟩, -⟩ := (takes_opcode _ _ _).1 hr
      exact Completes.after (steady_opcode p) hr (resumes_pushed hop.symm rfl h)

section Multisig

theorem not_runsOut_number {op : Opcode} {f : Int → α} {e : Failure} (he : e.isEnd = false) :
    ¬ RunsOut (match op.number? with
      | some n => do
        emit op
        pure (f n)
      | none => throw e) p := by
  intro h
  split at h
  · rcases runsOut_bind_iff.1 h with h | ⟨_, m, -, h⟩
    · exact not_runsOut_emit h
    · exact not_runsOut_of_ok rfl h
  · exact not_runsOut_throw he h

theorem unread_of_runsOut_threshold (h : RunsOut threshold p) : p.cursor.unread = [] := by
  rcases runsOut_bind_iff.1 h with h | ⟨r, m, -, h⟩
  · exact unread_of_runsOut_opcode h
  · exact absurd h (not_runsOut_number (f := id) rfl)

theorem runsOut_keyOrCount (h : RunsOut keyOrCount p) : ∃ found, KeysBegun found p.cursor.unread := by
  rcases runsOut_bind_iff.1 h with h | ⟨r, m, hr, h⟩
  · rw [unread_of_runsOut_opcode h]
    exact ⟨[], keysBegun_nil⟩
  · obtain ⟨_, _, ⟨hop, rfl, -⟩, ⟨hu, -⟩, -⟩ := (takes_opcode _ _ _).1 hr
    simp only at h
    split at h
    · next hkey =>
      obtain ⟨-, -, hb⟩ := Opcode.ofByte_pushed_iff.1 (hop.symm.trans hkey)
      rcases runsOut_bind_iff.1 h with h | ⟨_, k, hk, h⟩
      · exact absurd h not_runsOut_emit
      · obtain ⟨_, _, ⟨_, -, rfl, -⟩, ⟨hk, -⟩, -⟩ := (takes_emit _ _ _ _).1 hk
        rcases runsOut_bind_iff.1 h with h | ⟨_, l, -, h⟩
        · have hpart := remaining_of_runsOut_payload h
          rw [hu, hb, hk]
          exact ⟨_, keysBegun_part hpart⟩
        · exact absurd h (not_runsOut_of_ok rfl)
    · exact absurd h (not_runsOut_number rfl)

theorem runsOut_keys_cases {observed : Nat} (h : RunsOut (keys observed) p) :
    RunsOut keyOrCount p ∨ ∃ m, keyOrCount p = .ok none m ∧ RunsOut (keys (observed + 1)) m := by
  rw [keys_eq_bind] at h
  rcases runsOut_bind_iff.1 h with h | ⟨declared | declared, m, hr, h⟩
  · exact .inl h
  · exact .inr ⟨m, hr, h⟩
  · exact absurd h (not_runsOut_of_ok rfl)

theorem runsOut_keys {observed : Nat} (h : RunsOut (keys observed) p) :
    ∃ found, KeysBegun found p.cursor.unread := by
  -- along the recursion, where only a turn that took a key goes on
  induction observed, p using keys.induct with
  | case1 observed p e m hk =>
    rcases runsOut_keys_cases h with h | ⟨n, hn, -⟩
    · exact runsOut_keyOrCount h
    · cases hk.symm.trans hn
  | case2 observed p declared m hk =>
    rcases runsOut_keys_cases h with h | ⟨n, hn, -⟩
    · exact absurd h (not_runsOut_of_ok hk)
    · cases hk.symm.trans hn
  | case3 observed p m hk ih =>
    rcases runsOut_keys_cases h with h | ⟨n, hn, h⟩
    · exact absurd h (not_runsOut_of_ok hk)
    · obtain ⟨-, rfl⟩ := EStateM.Result.ok.inj (hk.symm.trans hn)
      obtain ⟨found, hfound⟩ := ih h
      obtain ⟨_, _, ⟨-, key, hkey, rfl, -⟩ | ⟨_, hnone, -⟩, ⟨hu, -⟩, -⟩ :=
        (takes_keyOrCount _ _ _).1 hk
      · rw [hu]
        exact ⟨key :: found, hfound.cons hkey⟩
      · cases hnone

variable {required : Nat} {found : List Bytes} {part : Bytes}

/-- As long as there are no more than sixteen keys, enough of them and their number can follow. -/
theorem completes_multisig (h1 : 1 ≤ required) (h16 : required ≤ 16) (hf : found.length ≤ 16)
    (hk : KeysBegun found part) (hp : p.cursor.unread = Standard.number required :: part) :
    Completes multisig p := by
  obtain ⟨hl, rest, -, hpart⟩ := hk
  -- keys up to the number required, so that what follows them is their own number
  let others : List Bytes := List.replicate (required - found.length) (List.replicate 65 0)
  have hsize : (found ++ others).length = found.length + (required - found.length) := by
    rw [List.length_append, List.length_replicate]
  have hkeys (key : Bytes) (hkey : key ∈ found ++ others) : key.length = 65 := by
    rcases List.mem_append.1 hkey with hkey | hkey
    · exact hl key hkey
    · rw [List.eq_of_mem_replicate hkey, List.length_replicate]
  have hvalid : (Standard.multisig required (found ++ others)).Valid :=
    ⟨h1, by omega, by omega, hkeys⟩
  have hbytes : p.cursor.unread ++ (rest ++ (others.flatMap Standard.pushed ++
      [Standard.number (found ++ others).length, 0xae])) =
        (Standard.multisig required (found ++ others)).bytes := by
    rw [hp, Standard.bytes, List.flatMap_append, ← hpart]
    simp only [List.cons_append, List.append_assoc]
  exact takes_multisig.completes (a := ()) ⟨_, rfl, hvalid, hbytes, rfl⟩

theorem resumes_counted {required : Int} {r : Nat × Int} :
    Resumes (if r.1 ≠ r.2 then throw (.keyCount r.2 r.1)
      else if r.2 < required then throw (.threshold required r.2)
      else expect ⟨.checkMultisig, none⟩) p := by
  intro h
  by_cases hn : (r.1 : Int) = r.2
  · rw [if_neg fun h => h hn] at h ⊢
    by_cases hr : r.2 < required
    · rw [if_pos hr] at h
      exact absurd h (not_runsOut_throw rfl)
    · rw [if_neg hr] at h ⊢
      exact viable_expect (b := 0xae) rfl rfl p (.inr h)
  · rw [if_pos hn] at h
    exact absurd h (not_runsOut_throw rfl)

theorem runsOut_multisig (h : RunsOut multisig p) :
    Completes multisig p ∨ Overfull p.cursor.unread := by
  rcases runsOut_bind_iff.1 h with h | ⟨n, m, hn, h⟩
  · left
    have hvalid : (Standard.multisig 1 [.replicate 65 0]).Valid := by
      decide
    have hbytes : p.cursor.unread ++ (Standard.multisig 1 [.replicate 65 0]).bytes =
        (Standard.multisig 1 [.replicate 65 0]).bytes := by
      rw [unread_of_runsOut_threshold h, List.nil_append]
    exact takes_multisig.completes (a := ()) ⟨_, rfl, hvalid, hbytes, rfl⟩
  · obtain ⟨_, _, ⟨required, rfl, h1, h16, rfl, -⟩, ⟨hu, -⟩, -⟩ := (takes_threshold _ _ _).1 hn
    rcases runsOut_bind_iff.1 h with h | ⟨r, q, hr, h⟩
    · obtain ⟨found, hfound⟩ := runsOut_keys h
      by_cases hsize : found.length ≤ 16
      · exact .inl (completes_multisig h1 h16 hsize hfound hu)
      · exact .inr ⟨required, found, _, h1, h16, Nat.lt_of_not_le hsize, hfound, hu⟩
    · left
      apply Completes.after (steady_threshold p) hn
      apply Completes.after (steady_keys 0 m) hr
      exact resumes_counted h

/-- An overfull list is read on and on, since its number could still follow for all that is read. -/
theorem runsOut_of_overfull (h : Overfull p.cursor.unread) : RunsOut multisig p := by
  obtain ⟨required, found, part, h1, h16, -, ⟨hl, rest, -, hpart⟩, hu⟩ := h
  let m : Progress :=
    ⟨⟨Standard.number required :: p.cursor.past, part⟩,
      ⟨p.asm.tokens ++ [Standard.numberToken required]⟩⟩
  have hthreshold : threshold p = .ok (required : Int) m :=
    (takes_threshold _ _ _).2 ⟨_, _, ⟨required, rfl, h1, h16, rfl, rfl⟩, ⟨hu, rfl⟩, rfl⟩
  have hbytes : part ++ (rest ++ [Standard.number 1]) =
      found.flatMap Standard.pushed ++ [Standard.number 1] := by
    rw [← hpart, List.append_assoc]
  have hmore : rest ++ [Standard.number 1] ≠ [] :=
    List.append_ne_nil_of_right_ne_nil _ (List.cons_ne_nil _ _)
  obtain ⟨q, hq, hall⟩ := (takes_keys 0).run_all (p := m.extend (rest ++ [Standard.number 1]))
    ⟨found, 1, rfl, by decide, by decide, hl, hbytes, rfl⟩
  apply runsOut_bind_iff.2
  right
  refine ⟨required, m, hthreshold, runsOut_bind_iff.2 ?_⟩
  left
  exact (steady_keys 0 m).runsOut hmore hq hall

end Multisig

theorem runsOut_ofKind {kind : Kind} (h : RunsOut (ofKind kind) p) :
    Completes (ofKind kind) p ∨ Overfull p.cursor.unread := by
  cases kind with
  | multisig => exact runsOut_multisig h
  | dataCarrier => exact .inl (viable_dataCarrier p (.inr h))
  | p2pk => exact .inl (viable_ofPattern (s := .p2pk (.replicate 65 0)) rfl rfl p (.inr h))
  | p2pkh => exact .inl (viable_ofPattern (s := .p2pkh (.replicate 20 0)) rfl rfl p (.inr h))
  | p2sh => exact .inl (viable_ofPattern (s := .p2sh (.replicate 20 0)) rfl rfl p (.inr h))
  | p2wpkh => exact .inl (viable_ofPattern (s := .p2wpkh (.replicate 20 0)) rfl rfl p (.inr h))
  | p2wsh => exact .inl (viable_ofPattern (s := .p2wsh (.replicate 32 0)) rfl rfl p (.inr h))
  | p2tr => exact .inl (viable_ofPattern (s := .p2tr (.replicate 32 0)) rfl rfl p (.inr h))

end Decoder

end CoinWire.Script
