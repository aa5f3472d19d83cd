import Mathlib

/-!
# Parts of a list by halving

`part l p` is what is left of `l` when it is cut in the middle again and again and the path `p`
says which half to keep. Two parts of a list without duplicates are nested or have no element in
common (`part_laminar`), and a cut of two elements or more takes one from the logarithm of the length
(`clog_half_lt`).
-/

namespace Lib

variable {α : Type} {l : List α} {p q : List Bool}

/-- The second half of a list, or its first. -/
def half (second : Bool) (l : List α) : List α := if second then l.drop (l.length / 2) else l.take (l.length / 2)

/-- The part of a list that a path leads to. -/
def part (l : List α) (p : List Bool) : List α := p.foldl (fun l b => half b l) l

@[simp] theorem part_nil (l : List α) : part l [] = l := rfl

theorem part_concat (l : List α) (p : List Bool) (b : Bool) : part l (p ++ [b]) = half b (part l p) := by
  rw [part, List.foldl_append]
  rfl

theorem half_append (l : List α) : half false l ++ half true l = l := List.take_append_drop _ _

theorem half_sub (b : Bool) (l : List α) : half b l <:+: l := by
  cases b with
  | false => exact (List.take_prefix _ _).isInfix
  | true => exact (List.drop_suffix _ _).isInfix

theorem part_sub (l : List α) (p : List Bool) : part l p <:+: l := by
  induction p generalizing l with
  | nil => exact List.infix_rfl
  | cons b p ih => exact (ih (half b l)).trans (half_sub b l)

theorem half_disjoint (hl : l.Nodup) (b : Bool) : (half b l).Disjoint (half (!b) l) := by
  have hdisjoint : (half false l).Disjoint (half true l) := by
    rw [← half_append l] at hl
    exact List.disjoint_of_nodup_append hl
  cases b with
  | false => exact hdisjoint
  | true => exact hdisjoint.symm

/-- **Two parts are nested or disjoint.** -/
theorem part_laminar (hl : l.Nodup) (p q : List Bool) :
    (part l p).Disjoint (part l q) ∨ part l p <:+: part l q ∨ part l q <:+: part l p := by
  induction p generalizing l q with
  | nil => exact .inr (.inr (part_sub l q))
  | cons b p ih =>
    cases q with
    | nil => exact .inr (.inl (part_sub l (b :: p)))
    | cons c q =>
      by_cases hbc : c = b
      · subst hbc
        exact ih (hl.sublist (half_sub c l).sublist) q
      · obtain rfl : c = !b := by cases b <;> cases c <;> simp_all
        refine .inl fun x hx hy => ?_
        have hfirst : x ∈ half b l := (part_sub _ p).subset hx
        have hsecond : x ∈ half (!b) l := (part_sub _ q).subset hy
        exact half_disjoint hl b hfirst hsecond

theorem length_half_le (b : Bool) (l : List α) : (half b l).length ≤ (l.length + 2 - 1) / 2 := by
  cases b with
  | false =>
    show (l.take _).length ≤ _
    rw [List.length_take]
    omega
  | true =>
    show (l.drop _).length ≤ _
    rw [List.length_drop]
    omega

/-- A cut of a list with two elements or more takes one from its logarithm. -/
theorem clog_half_lt (h : 1 < l.length) (b : Bool) : Nat.clog 2 (half b l).length < Nat.clog 2 l.length := by
  rw [Nat.clog_of_two_le Nat.one_lt_two h]
  exact Nat.lt_succ_of_le (Nat.clog_mono_right 2 (length_half_le b l))

end Lib
