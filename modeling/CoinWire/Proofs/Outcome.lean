import CoinWire.Bytes
import Mathlib.Data.List.Forall2

/-!
When a computation that may fail succeeds, and with what: each lemma takes one way of composing such
computations apart into the successes of its parts. A sequence of steps fails where its first failing step
does.
-/

namespace CoinWire

variable {ε σ α β : Type}

theorem bind_eq_ok_iff {x : Except ε α} {f : α → Except ε β} {b : β} :
    x >>= f = .ok b ↔ ∃ a, x = .ok a ∧ f a = .ok b := by
  cases x with
  | error e => simp [bind, Except.bind]
  | ok a => simp [bind, Except.bind]

theorem bind_eq_error_iff {x : Except ε α} {f : α → Except ε β} {e : ε} :
    x >>= f = .error e ↔ x = .error e ∨ ∃ a, x = .ok a ∧ f a = .error e := by
  cases x with
  | error e' => simp [bind, Except.bind]
  | ok a => simp [bind, Except.bind]

theorem pure_eq_ok_iff {a b : α} : (pure a : Except ε α) = .ok b ↔ b = a := by
  simp [pure, Except.pure, eq_comm]

theorem map_eq_ok_iff {x : Except ε α} {f : α → β} {b : β} :
    x.map f = .ok b ↔ ∃ a, x = .ok a ∧ b = f a := by
  cases x with
  | error e => simp [Except.map]
  | ok a => simp [Except.map, eq_comm]

theorem map_eq_error_iff {x : Except ε α} {f : α → β} {e : ε} :
    x.map f = .error e ↔ x = .error e := by
  cases x with
  | error e' => simp [Except.map]
  | ok a => simp [Except.map]

theorem mapError_eq_ok_iff {ε' : Type} {x : Except ε α} {f : ε → ε'} {a : α} :
    x.mapError f = .ok a ↔ x = .ok a := by
  cases x with
  | error e => simp [Except.mapError]
  | ok b => simp [Except.mapError]

theorem mapError_eq_error_iff {ε' : Type} {x : Except ε α} {f : ε → ε'} {e : ε'} :
    x.mapError f = .error e ↔ ∃ cause, x = .error cause ∧ e = f cause := by
  cases x with
  | error cause => simp [Except.mapError, eq_comm]
  | ok a => simp [Except.mapError]

theorem mapM_eq_ok_iff {f : α → Except ε β} {as : List α} {bs : List β} :
    as.mapM f = .ok bs ↔ List.Forall₂ (fun a b => f a = .ok b) as bs := by
  induction as generalizing bs with
  | nil => simp [pure_eq_ok_iff]
  | cons a as ih =>
    rw [List.mapM_cons, bind_eq_ok_iff]
    constructor
    · intro h
      obtain ⟨b, hb, h⟩ := h
      obtain ⟨rest, hrest, h⟩ := bind_eq_ok_iff.1 h
      rw [pure_eq_ok_iff.1 h]
      exact .cons hb (ih.1 hrest)
    · intro h
      cases h with
      | cons hb hrest => exact ⟨_, hb, bind_eq_ok_iff.2 ⟨_, ih.2 hrest, rfl⟩⟩

theorem exists_infix_flatten {f : α → Except ε (List β)} {as : List α} {ws : List (List β)}
    (h : as.mapM f = .ok ws) {a : α} (ha : a ∈ as) : ∃ w, f a = .ok w ∧ w <:+: ws.flatten := by
  have hf := mapM_eq_ok_iff.1 h
  clear h
  induction hf with
  | nil => cases ha
  | @cons b w bs ws hw hrest ih =>
    obtain rfl | ha := List.mem_cons.1 ha
    · exact ⟨w, hw, (List.prefix_append w ws.flatten).isInfix⟩
    · obtain ⟨u, hu, hi⟩ := ih ha
      exact ⟨u, hu, hi.trans (List.suffix_append w ws.flatten).isInfix⟩

theorem run_bind_eq_ok_iff {x : EStateM ε σ α} {f : α → EStateM ε σ β} {s t : σ} {b : β} :
    (x >>= f) s = .ok b t ↔ ∃ a m, x s = .ok a m ∧ f a m = .ok b t := by
  simp only [bind, EStateM.bind]
  cases x s with
  | error e m => simp
  | ok a m =>
    constructor
    · intro h
      exact ⟨a, m, rfl, h⟩
    · intro h
      obtain ⟨_, _, he, h⟩ := h
      obtain ⟨rfl, rfl⟩ := EStateM.Result.ok.inj he
      exact h

theorem run_bind_eq_error_iff {x : EStateM ε σ α} {f : α → EStateM ε σ β} {s t : σ} {e : ε} :
    (x >>= f) s = .error e t ↔ x s = .error e t ∨ ∃ a m, x s = .ok a m ∧ f a m = .error e t := by
  simp only [bind, EStateM.bind]
  cases x s with
  | error e' m => simp
  | ok a m =>
    constructor
    · intro h
      exact .inr ⟨a, m, rfl, h⟩
    · intro h
      obtain h | ⟨_, _, he, h⟩ := h
      · cases h
      · obtain ⟨rfl, rfl⟩ := EStateM.Result.ok.inj he
        exact h

end CoinWire
