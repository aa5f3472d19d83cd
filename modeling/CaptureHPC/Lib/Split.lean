import Mathlib

/-!
# Splitting at a separator

`split sep l` has the parts of `l` between the occurrences of `sep`, which are sought from the left and do
not overlap.

* `split_append`: a part ends at the first occurrence.
* `split_intercalate`: so joined parts are found again, if none makes an earlier occurrence.
* `length_head_le`: no later than any occurrence.
* `not_infix_of_mem_split`: so the separator occurs in no part.
-/

namespace Lib

variable {α : Type} [DecidableEq α] {sep : List α}

/-- The parts of the rest of the list, of which `skip` symbols still belong to a separator, behind what is
already read of a part. -/
def splitFrom (sep : List α) : ℕ → List α → List α → List (List α)
  | _, part, [] => [part]
  | skip + 1, part, _ :: l => splitFrom sep skip part l
  | 0, part, a :: l =>
    if sep <+: a :: l then part :: splitFrom sep (sep.length - 1) [] l else splitFrom sep 0 (part ++ [a]) l

def split (sep l : List α) : List (List α) := splitFrom sep 0 [] l

theorem splitFrom_skip (skip : ℕ) (part l : List α) :
    splitFrom sep skip part l = splitFrom sep 0 part (l.drop skip) := by
  induction l generalizing skip with
  | nil => rw [List.drop_nil, splitFrom, splitFrom]
  | cons a l ih =>
    cases skip with
    | zero => rfl
    | succ skip => rw [splitFrom, ih, List.drop_succ_cons]

theorem splitFrom_part (part l : List α) : splitFrom sep 0 part l = (split sep l).modifyHead (part ++ ·) := by
  induction l generalizing part with
  | nil => simp [split, splitFrom]
  | cons a l ih =>
    rw [split, splitFrom, splitFrom]
    split_ifs
    · simp
    · rw [ih, List.nil_append, ih [a], List.modifyHead_modifyHead]
      congr 1
      funext p
      simp

@[simp] theorem split_nil : split sep [] = [[]] := rfl

theorem split_cons_of_start {l : List α} (hsep : sep ≠ []) (h : sep <+: l) :
    split sep l = [] :: split sep (l.drop sep.length) := by
  cases l with
  | nil => exact absurd (List.prefix_nil.1 h) hsep
  | cons a l =>
    have hlen := List.length_pos_iff.2 hsep
    rw [split, splitFrom, if_pos h, splitFrom_skip, split]
    congr 2
    rw [← List.drop_succ_cons (a := a), Nat.sub_add_cancel hlen]

theorem split_cons_of_absent {a : α} {l : List α} (h : ¬sep <+: a :: l) :
    split sep (a :: l) = (split sep l).modifyHead (a :: ·) := by
  rw [split, splitFrom, if_neg h, List.nil_append, splitFrom_part]
  rfl

/-- There is a first part, and the list starts with it. -/
theorem split_eq_cons (hsep : sep ≠ []) (l : List α) : ∃ part rest, split sep l = part :: rest ∧ part <+: l := by
  induction l with
  | nil => exact ⟨[], [], rfl, List.prefix_refl _⟩
  | cons a l ih =>
    by_cases h : sep <+: a :: l
    · exact ⟨[], _, split_cons_of_start hsep h, List.nil_prefix⟩
    · obtain ⟨part, rest, hl, hpart⟩ := ih
      refine ⟨a :: part, rest, ?_, List.cons_prefix_cons.2 ⟨rfl, hpart⟩⟩
      rw [split_cons_of_absent h, hl, List.modifyHead_cons]

/-- Without a separator there is one part. -/
theorem split_of_not_infix {l : List α} (h : ¬sep <:+: l) : split sep l = [l] := by
  induction l with
  | nil => rfl
  | cons a l ih =>
    rw [List.infix_cons_iff, not_or] at h
    rw [split_cons_of_absent h.1, ih h.2, List.modifyHead_cons]

/-- **A part ends at the first occurrence of the separator.** -/
theorem split_append (hsep : sep ≠ []) {part : List α} (h : ¬sep <:+: part ++ sep.dropLast) (rest : List α) :
    split sep (part ++ (sep ++ rest)) = part :: split sep rest := by
  induction part with
  | nil =>
    rw [List.nil_append, split_cons_of_start hsep (List.prefix_append sep rest), List.drop_left]
  | cons a part ih =>
    rw [List.cons_append, List.infix_cons_iff, not_or] at h
    -- a separator here would lie within the part and what the next one begins with
    have hprefix : ¬sep <+: a :: (part ++ (sep ++ rest)) := by
      intro hpre
      refine h.1 (List.prefix_of_prefix_length_le hpre ?_ ?_)
      · rw [List.cons_prefix_cons]
        exact ⟨rfl, List.prefix_append_right_inj part |>.2 ((List.dropLast_prefix sep).trans (List.prefix_append sep rest))⟩
      · have hlen := List.length_pos_iff.2 hsep
        simp only [List.length_cons, List.length_append, List.length_dropLast]
        omega
    rw [List.cons_append, split_cons_of_absent hprefix, ih h.2, List.modifyHead_cons]

/-- **Parts that are joined are found again.** -/
theorem split_intercalate (hsep : sep ≠ []) {parts : List (List α)} {last : List α}
    (h : ∀ part ∈ parts, ¬sep <:+: part ++ sep.dropLast) (hlast : ¬sep <:+: last) :
    split sep (sep.intercalate (parts ++ [last])) = parts ++ [last] := by
  induction parts with
  | nil => rw [List.nil_append, List.intercalate_singleton, split_of_not_infix hlast]
  | cons part parts ih =>
    rw [List.forall_mem_cons] at h
    rw [List.cons_append, List.intercalate_cons_of_ne_nil (by simp), List.append_assoc, split_append hsep h.1, ih h.2]

/-- The first part ends no later than where a separator begins. -/
theorem length_head_le (hsep : sep ≠ []) {before l part : List α} {rest : List (List α)}
    (h : before ++ sep <+: l) (hl : split sep l = part :: rest) : part.length ≤ before.length := by
  induction before generalizing l part rest with
  | nil =>
    rw [split_cons_of_start hsep h, List.cons.injEq] at hl
    rw [← hl.1]
  | cons a before ih =>
    cases l with
    | nil => exact absurd (List.prefix_nil.1 h) (List.cons_ne_nil _ _)
    | cons b l =>
      rw [List.cons_append, List.cons_prefix_cons] at h
      by_cases hpre : sep <+: b :: l
      · rw [split_cons_of_start hsep hpre, List.cons.injEq] at hl
        rw [← hl.1]
        exact Nat.zero_le _
      · obtain ⟨part', rest', hl', -⟩ := split_eq_cons hsep l
        rw [split_cons_of_absent hpre, hl', List.modifyHead_cons, List.cons.injEq] at hl
        have hle := ih h.2 hl'
        rw [← hl.1, List.length_cons, List.length_cons]
        omega

/-- **The separator occurs in no part.** -/
theorem not_infix_of_mem_split (hsep : sep ≠ []) {l part : List α} (h : part ∈ split sep l) : ¬sep <:+: part := by
  induction hn : l.length using Nat.strong_induction_on generalizing l part with
  | _ n ih =>
    cases l with
    | nil =>
      obtain rfl := List.mem_singleton.1 h
      rwa [List.infix_nil]
    | cons a l =>
      by_cases hpre : sep <+: a :: l
      · rw [split_cons_of_start hsep hpre] at h
        rcases List.mem_cons.1 h with rfl | h
        · rwa [List.infix_nil]
        · refine ih _ ?_ h rfl
          have hlen := List.length_pos_iff.2 hsep
          rw [List.length_drop, ← hn, List.length_cons]
          omega
      · obtain ⟨part', rest, hl, hpart⟩ := split_eq_cons hsep l
        have hshort : l.length < n := by
          rw [← hn, List.length_cons]
          exact Nat.lt_succ_self _
        rw [split_cons_of_absent hpre, hl, List.modifyHead_cons] at h
        rcases List.mem_cons.1 h with rfl | h
        · rw [List.infix_cons_iff, not_or]
          constructor
          · exact fun hhere => hpre (hhere.trans (List.cons_prefix_cons.2 ⟨rfl, hpart⟩))
          · exact ih _ hshort (by rw [hl]; exact List.mem_cons_self) rfl
        · exact ih _ hshort (by rw [hl]; exact List.mem_cons_of_mem _ h) rfl

end Lib
