import Mathlib

/-!
# What a stable sort puts first

`Before l a b` says that every `a` in `l` comes before every `b`. In a list sorted by `r`
this holds when `b` is not related to `a` (`before_of_pairwise`). It fails when some `b`
comes before some `a` (`not_before_of_sublist`), and a stable sort keeps such a pair.
-/

namespace Lib

variable {α : Type} {r : α → α → Prop} {l : List α} {a b : α}

/-- Every `a` comes before every `b`. -/
def Before (l : List α) (a b : α) : Prop := ∀ i j : ℕ, l[i]? = some a → l[j]? = some b → i < j

theorem before_of_pairwise (hrefl : ∀ x, r x x) (hl : l.Pairwise r) (hba : ¬ r b a) : Before l a b := by
  intro i j hi hj
  obtain ⟨hil, rfl⟩ := List.getElem?_eq_some_iff.1 hi
  obtain ⟨hjl, rfl⟩ := List.getElem?_eq_some_iff.1 hj
  rcases lt_trichotomy i j with hij | rfl | hij
  · exact hij
  · exact absurd (hrefl _) hba
  · exact absurd (List.pairwise_iff_getElem.1 hl j i hjl hil hij) hba

theorem not_before_of_sublist (h : [b, a].Sublist l) : ¬ Before l a b := by
  obtain ⟨f, hf⟩ := List.sublist_iff_exists_orderEmbedding_getElem?_eq.1 h
  have hb : l[f 0]? = some b := (hf 0).symm
  have ha : l[f 1]? = some a := (hf 1).symm
  intro hab
  have hlt : f 0 < f 1 := f.strictMono (by omega)
  have hgt := hab (f 1) (f 0) ha hb
  omega

end Lib
