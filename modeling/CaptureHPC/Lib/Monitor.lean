import Mathlib

/-!
# Reentrant monitors

A monitor is free, or held by a thread that has entered it once or more. `enter` has no result
while another thread holds it.
-/

namespace Lib

variable {τ : Type}

/-- A held monitor has been entered again `again` times. -/
inductive Monitor (τ : Type)
  | free
  | held (owner : τ) (again : ℕ)
  deriving DecidableEq

namespace Monitor

def Holds (m : Monitor τ) (t : τ) : Prop := ∃ again, m = held t again

/-- Another thread holds the monitor. -/
def Blocks (m : Monitor τ) (t : τ) : Prop := ∃ u, m.Holds u ∧ u ≠ t

variable {m m' : Monitor τ} {t u : τ}

theorem Holds.unique (h : m.Holds t) (h' : m.Holds u) : t = u := by
  obtain ⟨again, rfl⟩ := h
  obtain ⟨again', heq⟩ := h'
  exact (held.inj heq).1

theorem not_holds_free : ¬ (free : Monitor τ).Holds t := fun ⟨_, h⟩ => nomatch h

variable [DecidableEq τ]

def enter (t : τ) : Monitor τ → Option (Monitor τ)
  | free => some (held t 0)
  | held u again => if u = t then some (held u (again + 1)) else none

def exit (t : τ) : Monitor τ → Option (Monitor τ)
  | free => none
  | held u 0 => if u = t then some free else none
  | held u (again + 1) => if u = t then some (held u again) else none

/-- Who enters holds the monitor, and nobody else held it. -/
theorem enter_some (h : m.enter t = some m') : m'.Holds t ∧ (m = free ∨ m.Holds t) := by
  cases m with
  | free => exact ⟨⟨0, (Option.some.inj h).symm⟩, .inl rfl⟩
  | held u again =>
    simp only [enter] at h
    split_ifs at h with hu
    obtain rfl := Option.some.inj h
    exact ⟨⟨again + 1, by rw [hu]⟩, .inr ⟨again, by rw [hu]⟩⟩

/-- Who exits held the monitor, and nobody else holds it now. -/
theorem exit_some (h : m.exit t = some m') : m.Holds t ∧ (m' = free ∨ m'.Holds t) := by
  cases m with
  | free => exact nomatch h
  | held u again =>
    cases again with
    | zero =>
      simp only [exit] at h
      split_ifs at h with hu
      exact ⟨⟨0, by rw [hu]⟩, .inl (Option.some.inj h).symm⟩
    | succ again =>
      simp only [exit] at h
      split_ifs at h with hu
      obtain rfl := Option.some.inj h
      exact ⟨⟨again + 1, by rw [hu]⟩, .inr ⟨again, by rw [hu]⟩⟩

end Monitor

end Lib
