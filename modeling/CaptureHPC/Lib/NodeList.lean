import Mathlib

/-!
# Linked lists and their iterators

A list of nodes with addresses. An iterator is the address of a node, or nothing at the end; one whose node is
erased cannot be read or advanced any more.

* `iterate_ok`: a loop whose body keeps the list visits every node.
* `iterate_erased`: a loop whose body erases the node it is at ends in an access to it.
-/

namespace Lib

variable {α : Type}

structure NodeList (α : Type) where
  nodes : List (ℕ × α)
  nodup : (nodes.map Prod.fst).Nodup

namespace NodeList

/-- An access to a freed node, or more rounds than there is fuel for. -/
inductive Fault
  | dangling
  | fuel
  deriving DecidableEq, Repr

def empty : NodeList α := ⟨[], List.nodup_nil⟩

def values (l : NodeList α) : List α := l.nodes.map Prod.snd

/-- An address that is not in use. -/
def fresh (l : NodeList α) : ℕ := (l.nodes.map Prod.fst).foldl max 0 + 1

theorem le_foldl_max (as : List ℕ) (n : ℕ) : n ≤ as.foldl max n ∧ ∀ a ∈ as, a ≤ as.foldl max n := by
  induction as generalizing n with
  | nil => simp
  | cons a as ih =>
    obtain ⟨hn, has⟩ := ih (max n a)
    rw [List.foldl_cons, List.forall_mem_cons]
    exact ⟨(le_max_left n a).trans hn, (le_max_right n a).trans hn, has⟩

theorem fresh_notMem (l : NodeList α) : l.fresh ∉ l.nodes.map Prod.fst := by
  intro h
  have := (le_foldl_max (l.nodes.map Prod.fst) 0).2 _ h
  rw [fresh] at this
  omega

/-- `push_back`. -/
def pushBack (l : NodeList α) (x : α) : NodeList α where
  nodes := l.nodes ++ [(l.fresh, x)]
  nodup := by
    rw [List.map_append, List.map_singleton, ← List.concat_eq_append]
    exact (List.nodup_concat _ _).2 ⟨l.fresh_notMem, l.nodup⟩

@[simp] theorem values_empty : (empty : NodeList α).values = [] := rfl

@[simp] theorem values_pushBack (l : NodeList α) (x : α) : (l.pushBack x).values = l.values ++ [x] := by
  simp [values, pushBack]

/-- `begin`. -/
def first (l : NodeList α) : Option ℕ := l.nodes.head?.map Prod.fst

/-- `*it`. -/
def deref (l : NodeList α) (a : ℕ) : Except Fault α :=
  match l.nodes.lookup a with
  | some x => .ok x
  | none => .error .dangling

/-- `it++`. -/
def next (l : NodeList α) (a : ℕ) : Except Fault (Option ℕ) :=
  match l.nodes.dropWhile fun n => n.1 ≠ a with
  | [] => .error .dangling
  | _ :: rest => .ok (rest.head?.map Prod.fst)

/-- Erase a node, which frees it. -/
def erase (l : NodeList α) (a : ℕ) : NodeList α where
  nodes := l.nodes.filter fun n => n.1 ≠ a
  nodup := l.nodup.sublist (List.filter_sublist.map Prod.fst)

/-- `for (it = begin(); it != end(); it++) body(it)`, from an iterator on. -/
def iterate (body : NodeList α → ℕ → α → NodeList α) : ℕ → Option ℕ → NodeList α → Except Fault (NodeList α)
  | _, none, l => .ok l
  | 0, some _, _ => .error .fuel
  | n + 1, some a, l => do
    let x ← l.deref a
    let l' := body l a x
    let it ← l'.next a
    iterate body n it l'

theorem lookup_at {l : NodeList α} {before rest : List (ℕ × α)} {a : ℕ} {x : α}
    (h : l.nodes = before ++ (a, x) :: rest) : a ∉ before.map Prod.fst ∧ l.deref a = .ok x := by
  have hnd := l.nodup
  rw [h, List.map_append, List.map_cons, List.nodup_append] at hnd
  have ha : a ∉ before.map Prod.fst := fun hmem => hnd.2.2 a hmem a List.mem_cons_self rfl
  refine ⟨ha, ?_⟩
  have hnone : before.lookup a = none := by
    rw [List.lookup_eq_none_iff]
    intro n hn
    simp only [bne_iff_ne, ne_eq]
    rintro rfl
    exact ha (List.mem_map_of_mem hn)
  rw [deref, h, List.lookup_append, hnone, List.lookup_cons_self, Option.none_or]

theorem next_at {l : NodeList α} {before rest : List (ℕ × α)} {a : ℕ} {x : α}
    (h : l.nodes = before ++ (a, x) :: rest) : l.next a = .ok (rest.head?.map Prod.fst) := by
  obtain ⟨ha, -⟩ := lookup_at h
  have hdrop : l.nodes.dropWhile (fun n => n.1 ≠ a) = (a, x) :: rest := by
    rw [h, List.dropWhile_append_of_pos]
    · simp
    · intro n hn
      simp only [decide_eq_true_eq]
      rintro rfl
      exact ha (List.mem_map_of_mem hn)
  rw [next, hdrop]

theorem next_erase (l : NodeList α) (a : ℕ) : (l.erase a).next a = .error .dangling := by
  have hdrop : (l.erase a).nodes.dropWhile (fun n => n.1 ≠ a) = [] := by
    rw [List.dropWhile_eq_nil_iff]
    intro n hn
    exact (List.mem_filter.1 hn).2
  rw [next, hdrop]

variable {body : NodeList α → ℕ → α → NodeList α}

/-- **A loop whose body keeps the list comes to its end.** -/
theorem iterate_ok {l : NodeList α} {before rest : List (ℕ × α)} (h : l.nodes = before ++ rest)
    (hbody : ∀ n ∈ rest, body l n.1 n.2 = l) {fuel : ℕ} (hfuel : rest.length ≤ fuel) :
    iterate body fuel (rest.head?.map Prod.fst) l = .ok l := by
  induction rest generalizing before fuel with
  | nil => cases fuel <;> rfl
  | cons n rest ih =>
    cases fuel with
    | zero => cases hfuel
    | succ fuel =>
      have hnext := next_at h
      have hsplit : l.nodes = (before ++ [n]) ++ rest := by rw [h, List.append_cons]
      have hih := ih hsplit (fun m hm => hbody m (List.mem_cons_of_mem _ hm)) (Nat.le_of_succ_le_succ hfuel)
      show iterate body (fuel + 1) (some n.1) l = _
      rw [iterate, (lookup_at h).2]
      simp only [bind, Except.bind, hbody n List.mem_cons_self, hnext]
      exact hih

/-- **A loop whose body erases the node it is at ends in an access to it.** -/
theorem iterate_erased {l : NodeList α} {before kept rest : List (ℕ × α)} {a : ℕ} {x : α}
    (h : l.nodes = before ++ (kept ++ (a, x) :: rest)) (hkept : ∀ n ∈ kept, body l n.1 n.2 = l)
    (herase : body l a x = l.erase a) {fuel : ℕ} (hfuel : kept.length < fuel) :
    iterate body fuel ((kept ++ (a, x) :: rest).head?.map Prod.fst) l = .error .dangling := by
  induction kept generalizing before fuel with
  | nil =>
    cases fuel with
    | zero => cases hfuel
    | succ fuel =>
      show iterate body (fuel + 1) (some a) l = _
      rw [iterate, (lookup_at h).2]
      simp only [bind, Except.bind, herase, next_erase]
  | cons n kept ih =>
    cases fuel with
    | zero => cases hfuel
    | succ fuel =>
      have hnext := next_at h
      have hsplit : l.nodes = (before ++ [n]) ++ (kept ++ (a, x) :: rest) := by
        rw [h, List.cons_append, List.append_cons]
      have hih := ih hsplit (fun m hm => hkept m (List.mem_cons_of_mem _ hm)) (Nat.lt_of_succ_lt_succ hfuel)
      show iterate body (fuel + 1) (some n.1) l = _
      rw [iterate, (lookup_at h).2]
      simp only [bind, Except.bind, hkept n List.mem_cons_self, hnext]
      exact hih

end NodeList

end Lib
