import CoinWire.Proofs.Script.Steady

/-!
Any calls on a cursor, one after another, the failed ones included. A cursor is told by its bytes and its
position, and what a call comes to by these and the call: it fails and changes nothing, or it stands in its
effect. So the bytes stay the same throughout, and all that is read between two positions is what lies
between them, the first time and again after going back.
-/

namespace CoinWire.Script

namespace Cursor

section Place

variable {c d m : Cursor} {found more : Bytes}

theorem Moves.refl (c : Cursor) : c.Moves [] c := ⟨rfl, rfl⟩

theorem Moves.trans (h : c.Moves found m) (hm : m.Moves more d) : c.Moves (found ++ more) d := by
  obtain ⟨hu, hp⟩ := h
  obtain ⟨hv, hq⟩ := hm
  refine ⟨?_, ?_⟩
  · rw [hu, hv, List.append_assoc]
  · rw [hq, hp, List.reverse_append, List.append_assoc]

theorem Moves.eq_extract (h : c.Moves found d) : found = c.data.extract c.position d.position := by
  rw [List.extract_eq_take_drop, ← unread_eq_drop, h.position, Nat.add_sub_cancel_left, h.1,
    List.take_left' rfl]

theorem eq_of_data (hd : c.data = d.data) (hp : c.position = d.position) : c = d := by
  obtain ⟨past, unread⟩ := c
  obtain ⟨past', unread'⟩ := d
  have hl : past.reverse.length = past'.reverse.length := by
    rw [List.length_reverse, List.length_reverse]
    exact hp
  obtain ⟨hr, rfl⟩ := List.append_inj hd hl
  obtain rfl : past = past' := List.reverse_injective hr
  rfl

theorem backTo_eq_ok_iff {offset : Int} : c.backTo offset = .ok d ↔
    d.data = c.data ∧ (d.position : Int) = offset ∧ d.position ≤ c.position := by
  constructor
  · intro h
    obtain ⟨hd, ho⟩ := data_backTo h
    refine ⟨hd, ho, ?_⟩
    rw [backTo] at h
    split at h
    · next hb => omega
    · cases h
  · intro h
    obtain ⟨hd, rfl, hp⟩ := h
    have hb : (0 : Int) ≤ d.position ∧ (d.position : Int) ≤ c.position := by omega
    cases hr : c.backTo d.position with
    | error e =>
      rw [backTo, if_pos hb] at hr
      cases hr
    | ok d' =>
      obtain ⟨hd', hp'⟩ := data_backTo hr
      rw [eq_of_data (hd'.trans hd.symm) (by omega)]

end Place

section Written

variable [DigitLimit] {c : Cursor}

theorem peek_of_neg {n : Int} (hn : n < 0) : c.peek n = .error (.negativeRead n) :=
  if_pos hn

theorem peek_of_short {n : Int} (hn : (c.remaining : Int) < n) :
    c.peek n = .error (if Decimal.Writable n then .unexpectedEnd n c.position c.remaining
      else .tooLong n) := by
  rw [peek, if_neg (by omega), if_pos hn, short]

theorem peek_of_within {n : Int} (h0 : 0 ≤ n) (hn : n ≤ c.remaining) :
    c.peek n = .ok (c.data.extract c.position (c.position + n.toNat)) := by
  rw [peek, if_neg (by omega), if_neg (by omega), List.extract_eq_take_drop, ← unread_eq_drop,
    Nat.add_sub_cancel_left]

theorem read_of_peek_error {n : Int} {e : Failure} (h : c.peek n = .error e) :
    c.read n = .error e :=
  map_eq_error_iff.2 h

theorem next_eq_read (c : Cursor) : (c.next.map fun r => ([r.1], r.2)) = c.read 1 := by
  obtain ⟨past, _ | ⟨b, rest⟩⟩ := c
  · have hone : Decimal.Writable 1 := Decimal.writable_of_lt_hundred (by decide)
    rw [read_of_peek_error (peek_of_short Int.one_pos), if_pos hone]
    rfl
  · rw [(next_eq_ok_iff (d := ⟨b :: past, rest⟩)).2 ⟨rfl, rfl⟩]
    exact (read_eq_ok_iff.2 ⟨rfl, rfl, rfl⟩).symm

end Written

inductive Call
  | read (n : Int)
  | next
  | peek (n : Int)
  | backTo (offset : Int)
  deriving DecidableEq, Repr

namespace Call

/-- What a call returns, as bytes, and where it leaves the cursor. -/
def perform [DigitLimit] : Call → Cursor → Except Failure (Bytes × Cursor)
  | read n, c => c.read n
  | next, c => c.next.map fun r => ([r.1], r.2)
  | peek n, c => (c.peek n).map fun found => (found, c)
  | backTo offset, c => (c.backTo offset).map fun d => ([], d)

def isRead : Call → Bool
  | read _ | next => true
  | _ => false

def isBack : Call → Bool
  | backTo _ => true
  | _ => false

def Effect : Call → Cursor → Bytes → Cursor → Prop
  | read n, c, found, d => (found.length : Int) = n ∧ c.Moves found d
  | next, c, found, d => (found.length : Int) = 1 ∧ c.Moves found d
  | peek n, c, found, d => (found.length : Int) = n ∧ found <+: c.unread ∧ d = c
  | backTo offset, c, found, d =>
    found = [] ∧ d.data = c.data ∧ (d.position : Int) = offset ∧ d.position ≤ c.position

variable {call : Call} {c d : Cursor} {found : Bytes}

theorem Effect.data_eq (h : call.Effect c found d) : d.data = c.data := by
  cases call with
  | read n => exact h.2.data_eq
  | next => exact h.2.data_eq
  | peek n => rw [h.2.2]
  | backTo offset => exact h.2.1

variable [DigitLimit]

theorem perform_eq_ok_iff : call.perform c = .ok (found, d) ↔ call.Effect c found d := by
  cases call with
  | read n => exact read_eq_ok_iff
  | next =>
    rw [perform, next_eq_read]
    exact read_eq_ok_iff
  | peek n =>
    rw [perform, map_eq_ok_iff, Effect]
    simp only [peek_eq_ok_iff, Prod.mk.injEq]
    constructor
    · intro h
      obtain ⟨_, ⟨hl, hp⟩, rfl, rfl⟩ := h
      exact ⟨hl, hp, rfl⟩
    · intro h
      obtain ⟨hl, hp, rfl⟩ := h
      exact ⟨found, ⟨hl, hp⟩, rfl, rfl⟩
  | backTo offset =>
    rw [perform, map_eq_ok_iff, Effect]
    simp only [backTo_eq_ok_iff, Prod.mk.injEq]
    constructor
    · intro h
      obtain ⟨_, hb, rfl, rfl⟩ := h
      exact ⟨rfl, hb⟩
    · intro h
      obtain ⟨rfl, hb⟩ := h
      exact ⟨d, hb, rfl, rfl⟩

/-- A call as decoders make it, on the cursor of their progress. -/
def step (call : Call) : Decoder Bytes := Decoder.ofCursor call.perform

theorem step_cases (call : Call) (p : Progress) :
    (∃ e, call.step p = .error e p) ∨
      ∃ found d, call.Effect p.cursor found d ∧ call.step p = .ok found ⟨d, p.asm⟩ := by
  cases h : call.perform p.cursor with
  | error e => exact .inl ⟨e, Decoder.ofCursor_of_error h⟩
  | ok r =>
    obtain ⟨found, d⟩ := r
    exact .inr ⟨found, d, perform_eq_ok_iff.1 h, Decoder.ofCursor_of_ok h⟩

theorem data_left (call : Call) (p : Progress) :
    (call.step.left p).cursor.data = p.cursor.data := by
  obtain ⟨e, h⟩ | ⟨found, d, he, h⟩ := step_cases call p
  · rw [Decoder.left_of_error h]
  · rw [Decoder.left_of_ok h]
    exact he.data_eq

/-- What a call reads: nothing where it only looks, goes back or fails. -/
def bytesRead (call : Call) (p : Progress) : Bytes :=
  match call.step p with
  | .ok found _ => if call.isRead then found else []
  | .error _ _ => []

theorem bytesRead_of_ok {p q : Progress} (h : call.step p = .ok found q) :
    call.bytesRead p = if call.isRead then found else [] := by
  rw [bytesRead, h]

theorem bytesRead_of_error {p q : Progress} {e : Failure} (h : call.step p = .error e q) :
    call.bytesRead p = [] := by
  rw [bytesRead, h]

theorem moves_left {p : Progress} (hb : call.isBack = false) :
    p.cursor.Moves (call.bytesRead p) (call.step.left p).cursor := by
  obtain ⟨e, h⟩ | ⟨found, d, he, h⟩ := step_cases call p
  · rw [bytesRead_of_error h, Decoder.left_of_error h]
    exact .refl p.cursor
  · rw [bytesRead_of_ok h, Decoder.left_of_ok h]
    cases call with
    | read n => exact he.2
    | next => exact he.2
    | peek n =>
      obtain ⟨-, -, rfl⟩ := he
      exact .refl p.cursor
    | backTo offset => cases hb

end Call

end Cursor

namespace Progress

open Cursor (Call)

variable [DigitLimit]

def afterCalls (p : Progress) (calls : List Call) : Progress :=
  calls.foldl (fun p call => call.step.left p) p

def readAlong : List Call → Progress → Bytes
  | [], _ => []
  | call :: rest, p => call.bytesRead p ++ readAlong rest (call.step.left p)

variable {p : Progress} {calls : List Call}

theorem afterCalls_cons (p : Progress) (call : Call) (rest : List Call) :
    p.afterCalls (call :: rest) = (call.step.left p).afterCalls rest := rfl

theorem data_afterCalls (p : Progress) (calls : List Call) :
    (p.afterCalls calls).cursor.data = p.cursor.data := by
  induction calls generalizing p with
  | nil => rfl
  | cons call rest ih => rw [afterCalls_cons, ih, Call.data_left]

theorem moves_afterCalls (hb : ∀ call ∈ calls, call.isBack = false) :
    p.cursor.Moves (readAlong calls p) (p.afterCalls calls).cursor := by
  induction calls generalizing p with
  | nil => exact .refl p.cursor
  | cons call rest ih =>
    obtain ⟨hcall, hrest⟩ := List.forall_mem_cons.1 hb
    exact (Call.moves_left hcall).trans (ih hrest)

end Progress

variable [DigitLimit]

/-- What a cursor answers, by the bytes it is over and by its position. More bytes than are left are a
shortage, which is told with their number where that can be written. -/
structure Cursor.Obeys (c : Cursor) (data : Bytes) : Prop where
  data_eq : c.data = data
  position_le : c.position ≤ data.length
  account : c.position + c.remaining = data.length
  atEnd_iff : c.atEnd = true ↔ c.remaining = 0
  within : ∀ n : Int, 0 ≤ n → n ≤ c.remaining →
    c.peek n = .ok (data.extract c.position (c.position + n.toNat)) ∧
      ∃ d, c.read n = .ok (data.extract c.position (c.position + n.toNat), d) ∧
        d.data = data ∧ d.position = c.position + n.toNat
  negative : ∀ n : Int, n < 0 →
    c.peek n = .error (.negativeRead n) ∧ c.read n = .error (.negativeRead n)
  short : ∀ n : Int, c.remaining < n → Decimal.Writable n →
    c.peek n = .error (.unexpectedEnd n c.position c.remaining) ∧
      c.read n = .error (.unexpectedEnd n c.position c.remaining)
  overlong : ∀ n : Int, c.remaining < n → ¬ Decimal.Writable n →
    c.peek n = .error (.tooLong n) ∧ c.read n = .error (.tooLong n)
  next : (c.next.map fun r => ([r.1], r.2)) = c.read 1
  back : ∀ offset : Int, 0 ≤ offset → offset ≤ c.position →
    ∃ d, c.backTo offset = .ok d ∧ d.data = data ∧ (d.position : Int) = offset
  noBack : ∀ offset : Int, offset < 0 ∨ c.position < offset →
    c.backTo offset = .error (.rewind offset c.position)

theorem Cursor.obeys_data (c : Cursor) : c.Obeys c.data where
  data_eq := rfl
  position_le := by
    rw [length_data, size]
    exact Nat.le_add_right ..
  account := c.length_data.symm
  atEnd_iff := by rw [atEnd, remaining, List.isEmpty_iff, List.length_eq_zero_iff]
  within n h0 hn := by
    have hpeek := peek_of_within h0 hn
    refine ⟨hpeek, c.skip n.toNat, map_eq_ok_iff.2 ⟨_, hpeek, rfl⟩, data_skip .., ?_⟩
    exact position_skip _ _ (by omega)
  negative n hn := ⟨peek_of_neg hn, read_of_peek_error (peek_of_neg hn)⟩
  short n hn hw := by
    have hpeek := peek_of_short hn
    rw [if_pos hw] at hpeek
    exact ⟨hpeek, read_of_peek_error hpeek⟩
  overlong n hn hw := by
    have hpeek := peek_of_short hn
    rw [if_neg hw] at hpeek
    exact ⟨hpeek, read_of_peek_error hpeek⟩
  next := c.next_eq_read
  back offset h0 hp := by
    cases h : c.backTo offset with
    | error e =>
      rw [backTo, if_pos ⟨h0, hp⟩] at h
      cases h
    | ok d => exact ⟨d, rfl, data_backTo h⟩
  noBack offset h := if_neg (by omega)

/-- After any calls whatever, under any limit on digits or none, a cursor is over the same bytes and answers
by its position. A call that fails changes nothing. What is read from there on without going back is what
lies between the two positions, and going back leads to the very cursor that was there. -/
theorem calls_obey (data : Bytes) (calls : List Cursor.Call) :
    let p := (Progress.start data).afterCalls calls
    p.cursor.Obeys data ∧
      (∀ (call : Cursor.Call) e q, call.step p = .error e q → q = p) ∧
      (∀ (call : Cursor.Call) found q, call.step p = .ok found q →
        call.Effect p.cursor found q.cursor ∧ q.asm = p.asm) ∧
      (∀ more : List Cursor.Call, (∀ call ∈ more, call.isBack = false) →
        Progress.readAlong more p =
          data.extract p.cursor.position (p.afterCalls more).cursor.position) ∧
      ∀ more : List Cursor.Call, p.cursor.position ≤ (p.afterCalls more).cursor.position →
        (p.afterCalls more).cursor.backTo p.cursor.position = .ok p.cursor := by
  intro p
  -- All there is to know about the calls before; the position may be any.
  have hdata : p.cursor.data = data :=
    (Progress.data_afterCalls _ calls).trans (Cursor.data_start data)
  refine ⟨?_, fun call e q h => ?_, fun call found q h => ?_, fun more hb => ?_, fun more hp => ?_⟩
  · rw [← hdata]
    exact p.cursor.obeys_data
  · obtain ⟨e', he⟩ | ⟨found, d, -, he⟩ := Cursor.Call.step_cases call p
    · exact (EStateM.Result.error.inj (h.symm.trans he)).2
    · cases h.symm.trans he
  · obtain ⟨e', he⟩ | ⟨found', d, hd, he⟩ := Cursor.Call.step_cases call p
    · cases h.symm.trans he
    · obtain ⟨rfl, rfl⟩ := EStateM.Result.ok.inj (h.symm.trans he)
      exact ⟨hd, rfl⟩
  · rw [← hdata]
    exact (Progress.moves_afterCalls hb).eq_extract
  · exact Cursor.backTo_eq_ok_iff.2 ⟨(Progress.data_afterCalls p more).symm, rfl, hp⟩

end CoinWire.Script
