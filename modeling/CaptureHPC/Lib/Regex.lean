import Mathlib

/-!
# Regular expressions

Expressions of characters, anchors and repeats, and the texts they match between what comes before and after them.
An anchor holds at the edge of the whole text and beside a newline.

* `Matches.consumes`: an expression matches only characters that it can consume.
* `Matches.shorten`: an expression that matches a text of one line matches one with a character for each of its atoms.
-/

namespace Lib

inductive Regex (α : Type)
  | empty
  | sat (p : α → Prop)
  | start
  | finish
  | cat (r s : Regex α)
  | plus (r : Regex α)

namespace Regex

variable {α : Type} {newline : α → Prop} {r s : Regex α} {before text after : List α}

/-- `text` is matched between `before` and `after`. -/
inductive Matches (newline : α → Prop) : Regex α → List α → List α → List α → Prop
  | empty {before after : List α} : Matches newline .empty before [] after
  | sat {p : α → Prop} {c : α} {before after : List α} (h : p c) : Matches newline (.sat p) before [c] after
  | start {before after : List α} (h : ∀ c ∈ before.getLast?, newline c) : Matches newline .start before [] after
  | finish {before after : List α} (h : ∀ c ∈ after.head?, newline c) : Matches newline .finish before [] after
  | cat {r s : Regex α} {before t u after : List α} (hr : Matches newline r before t (u ++ after))
      (hs : Matches newline s (before ++ t) u after) : Matches newline (.cat r s) before (t ++ u) after
  | once {r : Regex α} {before t after : List α} (h : Matches newline r before t after) :
      Matches newline (.plus r) before t after
  | more {r : Regex α} {before t u after : List α} (hr : Matches newline r before t (u ++ after))
      (hs : Matches newline (.plus r) (before ++ t) u after) : Matches newline (.plus r) before (t ++ u) after

/-- The characters that an expression may consume. -/
def Consumes (c : α) : Regex α → Prop
  | empty => False
  | sat p => p c
  | start => False
  | finish => False
  | cat r s => r.Consumes c ∨ s.Consumes c
  | plus r => r.Consumes c

/-- How many characters an expression consumes when each repeat is done once. -/
def atoms : Regex α → ℕ
  | empty => 0
  | sat _ => 1
  | start => 0
  | finish => 0
  | cat r s => r.atoms + s.atoms
  | plus r => r.atoms

namespace Matches

/-- **What is matched is consumed.** -/
theorem consumes (h : Matches newline r before text after) : ∀ c ∈ text, r.Consumes c := by
  induction h with
  | empty => simp
  | sat h =>
    intro d hd
    exact List.mem_singleton.1 hd ▸ h
  | start => simp
  | finish => simp
  | cat _ _ ihr ihs =>
    intro c hc
    exact (List.mem_append.1 hc).imp (ihr c) (ihs c)
  | once _ ih => exact ih
  | more _ _ ihr ihs =>
    intro c hc
    exact (List.mem_append.1 hc).elim (ihr c) (ihs c)

/-- **Every repeat can be done once**, the last time, when there is no newline. The anchors that hold are then at the
edges of the whole text, and they stay there when text is left out. -/
theorem shorten (h : Matches newline r before text after) (hline : ∀ c ∈ before ++ text ++ after, ¬newline c) :
    ∃ text', text'.length ≤ r.atoms ∧ text'.Sublist text ∧ ∀ before' after',
      (before = [] → before' = []) → (after = [] → after' = []) → Matches newline r before' text' after' := by
  induction h with
  | empty => exact ⟨[], le_rfl, List.Sublist.refl _, fun _ _ _ _ => .empty⟩
  | @sat p c before after h => exact ⟨[c], le_rfl, List.Sublist.refl _, fun _ _ _ _ => .sat h⟩
  | @start before after h =>
    refine ⟨[], le_rfl, List.Sublist.refl _, fun before' after' hbefore _ => .start ?_⟩
    have hnil : before = [] := by
      by_contra hne
      have hlast := List.getLast?_eq_some_getLast hne
      exact hline _ (by simp [List.getLast_mem hne]) (h _ hlast)
    simp [hbefore hnil]
  | @finish before after h =>
    refine ⟨[], le_rfl, List.Sublist.refl _, fun before' after' _ hafter => .finish ?_⟩
    have hnil : after = [] := by
      by_contra hne
      obtain ⟨c, rest, rfl⟩ := List.exists_cons_of_ne_nil hne
      exact hline c (by simp) (h c rfl)
    simp [hafter hnil]
  | @cat r s before t u after _ _ ihr ihs =>
    obtain ⟨t', ht, htsub, hr⟩ := ihr (by simpa [List.append_assoc] using hline)
    obtain ⟨u', hu, husub, hs⟩ := ihs (by simpa [List.append_assoc] using hline)
    refine ⟨t' ++ u', ?_, htsub.append husub, fun before' after' hbefore hafter => .cat ?_ ?_⟩
    · rw [List.length_append]
      exact Nat.add_le_add ht hu
    · refine hr before' (u' ++ after') hbefore fun hnil => ?_
      obtain ⟨hnil₁, hnil₂⟩ := List.append_eq_nil_iff.1 hnil
      rw [hnil₁] at husub
      rw [List.sublist_nil.1 husub, hafter hnil₂]
      rfl
    · refine hs (before' ++ t') after' (fun hnil => ?_) hafter
      obtain ⟨hnil₁, hnil₂⟩ := List.append_eq_nil_iff.1 hnil
      rw [hnil₂] at htsub
      rw [hbefore hnil₁, List.sublist_nil.1 htsub]
      rfl
  | once _ ih =>
    obtain ⟨t', ht, htsub, hr⟩ := ih hline
    exact ⟨t', ht, htsub, fun before' after' hbefore hafter => .once (hr before' after' hbefore hafter)⟩
  | @more r before t u after _ _ _ ihs =>
    obtain ⟨u', hu, husub, hs⟩ := ihs (by simpa [List.append_assoc] using hline)
    refine ⟨u', hu, husub.trans (List.sublist_append_right t u), fun before' after' hbefore hafter => ?_⟩
    exact hs before' after' (fun hnil => hbefore (List.append_eq_nil_iff.1 hnil).1) hafter

end Matches

end Regex

end Lib
