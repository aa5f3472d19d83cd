import Mathlib

/-!
# Programs with state and exceptions

An exception leaves the state as it was when it was thrown, so what a program does to its
state is asked of both ways to end (`final`).

* `zoom` runs a program on a part of a larger state.
* `run_bind_ok`, `forM_ok`: runs that return, in sequence and in a loop.
* `Keeps R m`: however `m` ends, `R` relates the state before to the state after. With `R`
  reflexive and transitive it passes through sequencing, branches and loops.
-/

namespace Lib

variable {ε σ τ α β γ : Type}

/-- The state a run leaves, by returning or by throwing. -/
def final : EStateM.Result ε σ α → σ
  | .ok _ s => s
  | .error _ s => s

/-- A run returns. -/
def returns : EStateM.Result ε σ α → Bool
  | .ok _ _ => true
  | .error _ _ => false

theorem run_of_returns {m : EStateM ε σ PUnit} {s : σ} (h : returns (m.run s) = true) :
    m.run s = .ok ⟨⟩ (final (m.run s)) := by
  cases hm : m.run s with
  | ok a t => rfl
  | error e t =>
    rw [hm] at h
    cases h

/-- Run a program on a part of a larger state. -/
def zoom (part : τ → σ) (put : τ → σ → τ) (m : EStateM ε σ α) : EStateM ε τ α := fun t =>
  match m.run (part t) with
  | .ok a s => .ok a (put t s)
  | .error e s => .error e (put t s)

variable {part : τ → σ} {put : τ → σ → τ} {m : EStateM ε σ α} {f : α → EStateM ε σ β}

theorem run_zoom (t : τ) : (zoom part put m).run t =
    match m.run (part t) with
    | .ok a s => .ok a (put t s)
    | .error e s => .error e (put t s) := rfl

theorem run_zoom_ok {t : τ} {a : α} {s : σ} (h : m.run (part t) = .ok a s) :
    (zoom part put m).run t = .ok a (put t s) := by
  rw [run_zoom, h]

theorem run_zoom_error {t : τ} {e : ε} {s : σ} (h : m.run (part t) = .error e s) :
    (zoom part put m).run t = .error e (put t s) := by
  rw [run_zoom, h]

theorem run_zoom_eq_ok {t t' : τ} {a : α} (h : (zoom part put m).run t = .ok a t') :
    ∃ s, m.run (part t) = .ok a s ∧ t' = put t s := by
  rw [run_zoom] at h
  cases hm : m.run (part t) with
  | ok b s =>
    rw [hm] at h
    cases h
    exact ⟨s, rfl, rfl⟩
  | error e s =>
    rw [hm] at h
    cases h

theorem final_zoom (t : τ) : final ((zoom part put m).run t) = put t (final (m.run (part t))) := by
  rw [run_zoom]
  cases m.run (part t) <;> rfl

/-! ## Runs that return -/

theorem run_bind_ok {s s' : σ} {a : α} (h : m.run s = .ok a s') : (m >>= f).run s = (f a).run s' := by
  rw [EStateM.run_bind, h]

theorem run_bind_error {s s' : σ} {e : ε} (h : m.run s = .error e s') :
    (m >>= f).run s = .error e s' := by
  rw [EStateM.run_bind, h]

/-- If a sequence returns, so does its first part, and the rest from there. -/
theorem run_bind_eq_ok {s s' : σ} {b : β} (h : (m >>= f).run s = .ok b s') :
    ∃ a t, m.run s = .ok a t ∧ (f a).run t = .ok b s' := by
  cases hm : m.run s with
  | ok a t => exact ⟨a, t, rfl, by rw [← run_bind_ok hm]; exact h⟩
  | error e t => rw [run_bind_error hm] at h; cases h

/-- **A loop that returns.** `I` speaks of the elements done so far; each round returns and
adds its element. -/
theorem forM_ok {I : List γ → σ → Prop} {g : γ → EStateM ε σ PUnit} {l : List γ} {s : σ} (hI : I [] s)
    (step : ∀ d x r s, l = d ++ x :: r → I d s → ∃ s', (g x).run s = .ok ⟨⟩ s' ∧ I (d ++ [x]) s') :
    ∃ s', (forM l g).run s = .ok ⟨⟩ s' ∧ I l s' := by
  suffices h : ∀ r d s, l = d ++ r → I d s → ∃ s', (forM r g).run s = .ok ⟨⟩ s' ∧ I l s' from
    h l [] s rfl hI
  intro r
  induction r with
  | nil =>
    intro d s hd hI
    rw [List.append_nil] at hd
    exact ⟨s, rfl, hd ▸ hI⟩
  | cons x r ih =>
    intro d s hd hI
    obtain ⟨s1, h1, hI1⟩ := step d x r s hd hI
    obtain ⟨s2, h2, hI2⟩ := ih (d ++ [x]) s1 (by rw [hd]; simp) hI1
    refine ⟨s2, ?_, hI2⟩
    rw [List.forM_cons, run_bind_ok h1, h2]

/-- A loop that is known to return: `I` is asked only of the rounds that return. -/
theorem forM_eq_ok {I : List γ → σ → Prop} {g : γ → EStateM ε σ PUnit} {l : List γ} {s s' : σ} (hI : I [] s)
    (step : ∀ d x r s s', l = d ++ x :: r → I d s → (g x).run s = .ok ⟨⟩ s' → I (d ++ [x]) s')
    (h : (forM l g).run s = .ok ⟨⟩ s') : I l s' := by
  suffices hs : ∀ r d s, l = d ++ r → I d s → (forM r g).run s = .ok ⟨⟩ s' → I l s' from
    hs l [] s rfl hI h
  intro r
  induction r with
  | nil =>
    intro d s hd hI h
    cases h
    rw [List.append_nil] at hd
    exact hd ▸ hI
  | cons x r ih =>
    intro d s hd hI h
    rw [List.forM_cons] at h
    obtain ⟨_, t, h1, h2⟩ := run_bind_eq_ok h
    exact ih (d ++ [x]) t (by rw [hd]; simp) (step d x r s t hd hI h1) h2

/-! ## Relations between the states before and after -/

/-- However the program ends, `R` holds from the state before to the state after. -/
def Keeps (R : σ → σ → Prop) (m : EStateM ε σ α) : Prop := ∀ s, R s (final (m.run s))

variable {R : σ → σ → Prop}

theorem Keeps.of_ok {s s' : σ} {a : α} (hm : Keeps R m) (h : m.run s = .ok a s') : R s s' := by
  have hs := hm s
  rw [h] at hs
  exact hs

theorem keeps_pure [Std.Refl R] (a : α) : Keeps R (pure a : EStateM ε σ α) := fun s => refl s

theorem keeps_throw [Std.Refl R] (e : ε) : Keeps R (throw e : EStateM ε σ α) := fun s => refl s

theorem keeps_get [Std.Refl R] : Keeps R (get : EStateM ε σ σ) := fun s => refl s

theorem keeps_modify {g : σ → σ} (h : ∀ s, R s (g s)) : Keeps R (modify g : EStateM ε σ PUnit) := h

/-- Sequencing at one state: the second part runs where the first one ended. -/
theorem final_bind [IsTrans σ R] {s : σ} (hm : R s (final (m.run s)))
    (hf : ∀ a t, m.run s = .ok a t → R t (final ((f a).run t))) : R s (final ((m >>= f).run s)) := by
  cases hms : m.run s with
  | ok a t =>
    rw [hms] at hm
    rw [run_bind_ok hms]
    exact IsTrans.trans _ _ _ hm (hf a t hms)
  | error e t =>
    rw [hms] at hm
    rw [run_bind_error hms]
    exact hm

theorem keeps_bind [IsTrans σ R] (hm : Keeps R m) (hf : ∀ a, Keeps R (f a)) : Keeps R (m >>= f) :=
  fun s => final_bind (hm s) fun a t _ => hf a t

theorem keeps_forM [Std.Refl R] [IsTrans σ R] {l : List γ} {g : γ → EStateM ε σ PUnit}
    (h : ∀ x ∈ l, Keeps R (g x)) : Keeps R (forM l g) := by
  induction l with
  | nil => exact keeps_pure PUnit.unit
  | cons x l ih =>
    rw [List.forM_cons]
    exact keeps_bind (h x List.mem_cons_self) fun _ => ih fun y hy => h y (List.mem_cons_of_mem _ hy)

theorem keeps_zoom {S : τ → τ → Prop} (h : Keeps R m) (hS : ∀ t s, R (part t) s → S t (put t s)) :
    Keeps S (zoom part put m) := by
  intro t
  rw [final_zoom]
  exact hS t _ (h (part t))

end Lib
