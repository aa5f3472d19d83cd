import Mathlib

/-!
# Sets whose elements are identified by a key

A set that is ordered by a key holds one element for each key: adding an element whose key
is there changes nothing, and removing an element removes the one of the same key. Such a set
is known by what it holds for each key (`get`), and each operation by what it does to `get`.
-/

namespace Lib

variable {α κ : Type} {key : α → κ}

structure KeyedSet (key : α → κ) where
  elems : List α
  distinct : (elems.map key).Nodup

namespace KeyedSet

variable [DecidableEq κ]

def empty : KeyedSet key := ⟨[], List.nodup_nil⟩

instance : Inhabited (KeyedSet key) := ⟨empty⟩

/-- The element of this key. -/
def get (s : KeyedSet key) (k : κ) : Option α := s.elems.find? fun a => key a = k

/-- The element of the key stays when there is one. -/
def add (s : KeyedSet key) (a : α) : KeyedSet key :=
  if h : key a ∈ s.elems.map key then s
  else ⟨a :: s.elems, by rw [List.map_cons, List.nodup_cons]; exact ⟨h, s.distinct⟩⟩

def remove (s : KeyedSet key) (a : α) : KeyedSet key :=
  ⟨s.elems.filter fun b => key b ≠ key a, s.distinct.sublist (List.filter_sublist.map key)⟩

def addAll (s t : KeyedSet key) : KeyedSet key := t.elems.foldl add s

def removeAll (s t : KeyedSet key) : KeyedSet key := t.elems.foldl remove s

variable {s t : KeyedSet key} {a b : α} {k : κ}

@[simp] theorem get_empty : (empty : KeyedSet key).get k = none := rfl

theorem key_of_get (h : s.get k = some a) : key a = k := by
  have hkey := List.find?_some h
  rwa [decide_eq_true_eq] at hkey

theorem get_eq_none : s.get k = none ↔ k ∉ s.elems.map key := by
  rw [get, List.find?_eq_none, List.mem_map]
  constructor
  · rintro h ⟨a, ha, hk⟩
    exact h a ha (decide_eq_true hk)
  · intro h a ha hk
    exact h ⟨a, ha, of_decide_eq_true hk⟩

theorem mem_iff : a ∈ s.elems ↔ s.get (key a) = some a := by
  constructor
  · intro ha
    cases hget : s.get (key a) with
    | none => exact absurd (List.mem_map_of_mem ha) (get_eq_none.1 hget)
    | some b =>
      have hb := List.mem_of_find?_eq_some hget
      rw [List.inj_on_of_nodup_map s.distinct hb ha (key_of_get hget)]
  · exact List.mem_of_find?_eq_some

@[simp] theorem get_add : (s.add a).get k = (s.get k).or (if key a = k then some a else none) := by
  by_cases hk : key a = k
  · rw [if_pos hk, add]
    split_ifs with hmem
    · cases hget : s.get k with
      | none => exact absurd (hk ▸ hmem) (get_eq_none.1 hget)
      | some b => rfl
    · have hnone : s.get k = none := get_eq_none.2 (hk ▸ hmem)
      rw [hnone, Option.none_or]
      exact List.find?_cons_of_pos (decide_eq_true hk)
  · rw [if_neg hk, Option.or_none, add]
    split_ifs
    · rfl
    · exact List.find?_cons_of_neg (by simpa using hk)

@[simp] theorem get_remove : (s.remove a).get k = if key a = k then none else s.get k := by
  split_ifs with hk
  · rw [get_eq_none, List.mem_map]
    rintro ⟨b, hb, hbk⟩
    have hne := (List.mem_filter.1 hb).2
    exact of_decide_eq_true hne (hbk.trans hk.symm)
  · have hfilter : (s.remove a).get k = s.elems.find? fun b => decide (key b ≠ key a ∧ key b = k) := by
      rw [get, remove, List.find?_filter]
      simp
    rw [hfilter, get]
    congr 1
    funext b
    rw [decide_eq_decide]
    exact ⟨fun h => h.2, fun h => ⟨fun hab => hk (hab.symm.trans h), h⟩⟩

theorem get_foldl_add (as : List α) (s : KeyedSet key) :
    (as.foldl add s).get k = (s.get k).or (as.find? fun a => key a = k) := by
  induction as generalizing s with
  | nil => rw [List.foldl_nil, List.find?_nil, Option.or_none]
  | cons a as ih =>
    rw [List.foldl_cons, ih, get_add, Option.or_assoc, List.find?_cons]
    by_cases hk : key a = k <;> simp [hk]

theorem get_foldl_remove (as : List α) (s : KeyedSet key) :
    (as.foldl remove s).get k = if (as.find? fun a => key a = k).isSome then none else s.get k := by
  induction as generalizing s with
  | nil => rfl
  | cons a as ih =>
    rw [List.foldl_cons, ih, get_remove, List.find?_cons]
    by_cases hk : key a = k <;> simp [hk]

/-- **The elements of `s`, and those of `t` whose keys `s` does not have.** -/
theorem get_addAll : (s.addAll t).get k = (s.get k).or (t.get k) := get_foldl_add t.elems s

/-- **The elements of `s` whose keys `t` does not have.** -/
theorem get_removeAll : (s.removeAll t).get k = if (t.get k).isSome then none else s.get k :=
  get_foldl_remove t.elems s

end KeyedSet

end Lib
