import Mathlib

/-!
# Units that end with a separator

A stream of symbols in which a separator ends each unit. `Scan` reads it one symbol at a
time. Reading the units of `terminated sep us` gives them back (`scan_terminated`), and no
symbol is counted twice or dropped (`weight_foldl_read`).
-/

namespace Lib

variable {α : Type} [DecidableEq α] {sep : α}

/-- The units read so far, and what has been read of the next one. -/
structure Scan (α : Type) where
  units : List (List α) := []
  pending : List α := []

/-- The stream of the units, each followed by the separator. -/
def terminated (sep : α) (us : List (List α)) : List α := us.flatMap (· ++ [sep])

namespace Scan

def read (sep : α) (s : Scan α) (x : α) : Scan α :=
  if x = sep then ⟨s.units ++ [s.pending], []⟩ else ⟨s.units, s.pending ++ [x]⟩

/-- How many symbols were needed to read this. -/
def weight (s : Scan α) : ℕ := (s.units.map fun u => u.length + 1).sum + s.pending.length

omit [DecidableEq α] in
theorem weight_units (us : List (List α)) (sep : α) :
    (⟨us, []⟩ : Scan α).weight = (terminated sep us).length := by
  rw [weight, terminated, List.length_flatMap]
  simp

/-- Symbols other than the separator are kept. -/
theorem foldl_read_of_notMem {u : List α} (hu : sep ∉ u) (s : Scan α) :
    u.foldl (read sep) s = ⟨s.units, s.pending ++ u⟩ := by
  induction u generalizing s with
  | nil => rw [List.foldl_nil, List.append_nil]
  | cons x u ih =>
    rw [List.mem_cons, not_or] at hu
    obtain ⟨hx, hu⟩ := hu
    rw [List.foldl_cons, ih hu, read, if_neg (Ne.symm hx), List.append_assoc, List.singleton_append]

/-- A unit and its separator. -/
theorem foldl_read_unit {u : List α} (hu : sep ∉ u) (s : Scan α) :
    (u ++ [sep]).foldl (read sep) s = ⟨s.units ++ [s.pending ++ u], []⟩ := by
  rw [List.foldl_append, foldl_read_of_notMem hu, List.foldl_cons, List.foldl_nil, read, if_pos rfl]

/-- **Reading gives the units back.** -/
theorem scan_terminated {us : List (List α)} (hus : ∀ u ∈ us, sep ∉ u) (done : List (List α)) :
    (terminated sep us).foldl (read sep) ⟨done, []⟩ = ⟨done ++ us, []⟩ := by
  induction us generalizing done with
  | nil => rw [terminated, List.flatMap_nil, List.foldl_nil, List.append_nil]
  | cons u us ih =>
    have hrest := ih (fun v hv => hus v (List.mem_cons_of_mem _ hv)) (done ++ [u])
    rw [terminated] at hrest
    rw [terminated, List.flatMap_cons, List.foldl_append, foldl_read_unit (hus u List.mem_cons_self),
      List.nil_append, hrest, List.append_assoc, List.singleton_append]

theorem weight_read (s : Scan α) (x : α) : (s.read sep x).weight = s.weight + 1 := by
  unfold read weight
  split_ifs with hx
  · simp
    omega
  · simp
    omega

/-- Each symbol counts once. -/
theorem weight_foldl_read (s : Scan α) (l : List α) : (l.foldl (read sep) s).weight = s.weight + l.length := by
  induction l generalizing s with
  | nil => rfl
  | cons x l ih =>
    rw [List.foldl_cons, ih, weight_read, List.length_cons]
    omega

end Scan

end Lib
