import Mathlib

/-!
# A queue in a binary heap

An array in which the element at `j` comes after the one at its parent `(j - 1) / 2`, kept by swaps along
one branch. The comparison is any function to the integers; below zero its first argument comes first.

* `offer_perm`, `poll_perm`: whatever the comparison is, elements are neither lost nor doubled.
* `Ordered.offer`, `Ordered.poll`: with a comparison that is a total preorder on the elements the order is
  kept.
* `Ordered.head_le`: so the first element is least.
-/

namespace Lib.PriorityQueue

open scoped List

variable {α : Type} {cmp : α → α → ℤ} {l : List α}

/-- The comparison of the elements at two places; it is `0` when one is outside. -/
def cmpAt (cmp : α → α → ℤ) (l : List α) (i j : ℕ) : ℤ :=
  match l[i]?, l[j]? with
  | some a, some b => cmp a b
  | _, _ => 0

def parent (k : ℕ) : ℕ := (k - 1) / 2

/-- The element at `k` moves up while it comes before its parent. -/
def siftUp (cmp : α → α → ℤ) : ℕ → ℕ → List α → List α
  | 0, _, l => l
  | fuel + 1, k, l =>
    if 0 < k ∧ cmpAt cmp l k (parent k) < 0 then siftUp cmp fuel (parent k) (l.swap k (parent k)) else l

/-- The child that comes first. -/
def firstChild (cmp : α → α → ℤ) (l : List α) (k : ℕ) : ℕ :=
  if 0 < cmpAt cmp l (2 * k + 1) (2 * k + 2) then 2 * k + 2 else 2 * k + 1

/-- The element at `k` moves down while it comes after a child. -/
def siftDown (cmp : α → α → ℤ) : ℕ → ℕ → List α → List α
  | 0, _, l => l
  | fuel + 1, k, l =>
    if 0 < cmpAt cmp l k (firstChild cmp l k) then siftDown cmp fuel (firstChild cmp l k) (l.swap k (firstChild cmp l k))
    else l

/-- The new element moves up from the end. -/
def offer (cmp : α → α → ℤ) (x : α) (l : List α) : List α := siftUp cmp l.length l.length (l ++ [x])

/-- The first element, in whose place the last one moves down. -/
def poll (cmp : α → α → ℤ) : List α → Option (α × List α)
  | [] => none
  | [a] => some (a, [])
  | a :: b :: l => some (a, siftDown cmp (l.length + 1) 0 ((b :: l).getLast (List.cons_ne_nil b l) :: (b :: l).dropLast))

/-! ## The elements -/

theorem siftUp_perm (fuel k : ℕ) (l : List α) : siftUp cmp fuel k l ~ l := by
  induction fuel generalizing k l with
  | zero => exact .refl _
  | succ fuel ih =>
    rw [siftUp]
    split_ifs
    · exact (ih _ _).trans (List.swap_perm _ _ _)
    · exact .refl _

theorem siftDown_perm (fuel k : ℕ) (l : List α) : siftDown cmp fuel k l ~ l := by
  induction fuel generalizing k l with
  | zero => exact .refl _
  | succ fuel ih =>
    rw [siftDown]
    split_ifs
    · exact (ih _ _).trans (List.swap_perm _ _ _)
    · exact .refl _

theorem offer_perm (x : α) (l : List α) : offer cmp x l ~ x :: l :=
  (siftUp_perm _ _ _).trans (List.perm_append_singleton x l)

theorem poll_eq_none : poll cmp l = none ↔ l = [] := by
  match l with
  | [] => exact ⟨fun _ => rfl, fun _ => rfl⟩
  | [_] => exact ⟨nofun, nofun⟩
  | _ :: _ :: _ => exact ⟨nofun, nofun⟩

/-- The first element is taken, and the others stay. -/
theorem poll_perm {a : α} {l' : List α} (h : poll cmp l = some (a, l')) : l.head? = some a ∧ l ~ a :: l' := by
  match l with
  | [] => cases h
  | [b] =>
    cases h
    exact ⟨rfl, .refl _⟩
  | b :: c :: l =>
    cases h
    refine ⟨rfl, .cons _ ?_⟩
    calc c :: l ~ (c :: l).dropLast ++ [(c :: l).getLast (List.cons_ne_nil c l)] := by
          rw [List.dropLast_concat_getLast]
      _ ~ (c :: l).getLast (List.cons_ne_nil c l) :: (c :: l).dropLast := List.perm_append_singleton _ _
      _ ~ _ := (siftDown_perm _ _ _).symm

/-! ## The order -/

/-- The comparison is a total preorder on the elements. -/
structure Contract (cmp : α → α → ℤ) (P : Set α) : Prop where
  total : ∀ a ∈ P, ∀ b ∈ P, cmp a b ≤ 0 ↔ 0 ≤ cmp b a
  trans : ∀ a ∈ P, ∀ b ∈ P, ∀ c ∈ P, cmp a b ≤ 0 → cmp b c ≤ 0 → cmp a c ≤ 0

theorem Contract.mono {P Q : Set α} (h : Contract cmp P) (hQ : Q ⊆ P) : Contract cmp Q :=
  ⟨fun a ha b hb => h.total a (hQ ha) b (hQ hb), fun a ha b hb c hc => h.trans a (hQ ha) b (hQ hb) c (hQ hc)⟩

/-- Each element comes after its parent. -/
def Ordered (cmp : α → α → ℤ) (l : List α) : Prop := ∀ j, 0 < j → cmpAt cmp l (parent j) j ≤ 0

/-- Only the element at `k` may come before its parent, not even after which its children come. -/
structure UpOrder (cmp : α → α → ℤ) (l : List α) (k : ℕ) : Prop where
  others : ∀ j, 0 < j → j ≠ k → cmpAt cmp l (parent j) j ≤ 0
  children : 0 < k → ∀ j, 0 < j → parent j = k → cmpAt cmp l (parent k) j ≤ 0

/-- Only the element at `k` may come after its children, which come after its parent. -/
structure DownOrder (cmp : α → α → ℤ) (l : List α) (k : ℕ) : Prop where
  others : ∀ j, 0 < j → parent j ≠ k → cmpAt cmp l (parent j) j ≤ 0
  children : 0 < k → ∀ j, 0 < j → parent j = k → cmpAt cmp l (parent k) j ≤ 0

theorem parent_lt {k : ℕ} (hk : 0 < k) : parent k < k := by
  unfold parent
  omega

theorem cmpAt_of_le {i j : ℕ} (h : l.length ≤ i ∨ l.length ≤ j) : cmpAt cmp l i j = 0 := by
  unfold cmpAt
  rcases h with h | h
  · rw [List.getElem?_eq_none h]
  · rw [List.getElem?_eq_none h]
    cases l[i]? <;> rfl

theorem cmpAt_of_lt {i j : ℕ} (hi : i < l.length) (hj : j < l.length) : cmpAt cmp l i j = cmp l[i] l[j] := by
  rw [cmpAt, List.getElem?_eq_getElem hi, List.getElem?_eq_getElem hj]

/-- Places that can be told apart are inside. -/
theorem lt_of_cmpAt_ne {i j : ℕ} (h : cmpAt cmp l i j ≠ 0) : i < l.length ∧ j < l.length := by
  by_contra hnot
  exact h (cmpAt_of_le (by omega))

theorem cmpAt_total (h : Contract cmp {a | a ∈ l}) (i j : ℕ) : cmpAt cmp l i j ≤ 0 ↔ 0 ≤ cmpAt cmp l j i := by
  by_cases hij : i < l.length ∧ j < l.length
  · rw [cmpAt_of_lt hij.1 hij.2, cmpAt_of_lt hij.2 hij.1]
    exact h.total _ (List.getElem_mem hij.1) _ (List.getElem_mem hij.2)
  · rw [cmpAt_of_le (by omega), cmpAt_of_le (by omega)]

theorem cmpAt_trans (h : Contract cmp {a | a ∈ l}) {i j k : ℕ} (hj : j < l.length) (hij : cmpAt cmp l i j ≤ 0)
    (hjk : cmpAt cmp l j k ≤ 0) : cmpAt cmp l i k ≤ 0 := by
  by_cases hik : i < l.length ∧ k < l.length
  · rw [cmpAt_of_lt hik.1 hj] at hij
    rw [cmpAt_of_lt hj hik.2] at hjk
    rw [cmpAt_of_lt hik.1 hik.2]
    exact h.trans _ (List.getElem_mem hik.1) _ (List.getElem_mem hj) _ (List.getElem_mem hik.2) hij hjk
  · rw [cmpAt_of_le (by omega)]

/-- Two elements in each other's place. -/
theorem cmpAt_swap {i j : ℕ} (hi : i < l.length) (hj : j < l.length) (a b : ℕ) :
    cmpAt cmp (l.swap i j) a b = cmpAt cmp l (Equiv.swap i j a) (Equiv.swap i j b) := by
  have hplace : ∀ k, (l.swap i j)[k]? = l[Equiv.swap i j k]? := by
    intro k
    rw [Equiv.swap_apply_def]
    split_ifs with hki hkj
    · subst hki
      rw [List.getElem?_eq_getElem (by rwa [List.length_swap]), List.getElem_swap_left_of_lt hj,
        List.getElem?_eq_getElem hj]
    · subst hkj
      rw [List.getElem?_eq_getElem (by rwa [List.length_swap]), List.getElem_swap_right_of_lt hi,
        List.getElem?_eq_getElem hi]
    · by_cases hk : k < l.length
      · rw [List.getElem?_eq_getElem (by rwa [List.length_swap]), List.getElem_swap_of_ne hki hkj,
          List.getElem?_eq_getElem hk]
      · rw [List.getElem?_eq_none (by rw [List.length_swap]; omega), List.getElem?_eq_none (by omega)]
  rw [cmpAt, hplace, hplace, cmpAt]

theorem contract_perm {l' : List α} (hperm : l' ~ l) (h : Contract cmp {a | a ∈ l}) : Contract cmp {a | a ∈ l'} :=
  h.mono fun _ ha => hperm.mem_iff.1 ha

/-! ## Moving up -/

theorem UpOrder.move {k : ℕ} (h : UpOrder cmp l k) (hc : Contract cmp {a | a ∈ l}) (hk : 0 < k)
    (hlt : cmpAt cmp l k (parent k) < 0) : UpOrder cmp (l.swap k (parent k)) (parent k) := by
  obtain ⟨hkl, hpl⟩ := lt_of_cmpAt_ne hlt.ne
  have hp := parent_lt hk
  constructor
  · intro j hj hjp
    rw [cmpAt_swap hkl hpl]
    by_cases hjk : j = k
    · -- the two have changed places
      rw [hjk, Equiv.swap_apply_right, Equiv.swap_apply_left]
      exact hlt.le
    rw [Equiv.swap_apply_of_ne_of_ne hjk hjp]
    by_cases hchild : parent j = k
    · rw [hchild, Equiv.swap_apply_left]
      exact h.children hk j hj hchild
    by_cases hsibling : parent j = parent k
    · rw [hsibling, Equiv.swap_apply_right]
      have hbefore := h.others j hj hjk
      rw [hsibling] at hbefore
      exact cmpAt_trans hc hpl hlt.le hbefore
    · rw [Equiv.swap_apply_of_ne_of_ne hchild hsibling]
      exact h.others j hj hjk
  · intro hpos j hj hjp
    have hpp := parent_lt hpos
    have hup := h.others (parent k) hpos (by omega)
    rw [cmpAt_swap hkl hpl, Equiv.swap_apply_of_ne_of_ne (by omega) (by omega)]
    by_cases hjk : j = k
    · rw [hjk, Equiv.swap_apply_left]
      exact hup
    · have hjlt := parent_lt hj
      have hbefore := h.others j hj hjk
      rw [hjp] at hbefore
      rw [Equiv.swap_apply_of_ne_of_ne hjk (by omega)]
      exact cmpAt_trans hc hpl hup hbefore

theorem UpOrder.finish {k : ℕ} (h : UpOrder cmp l k) (hc : Contract cmp {a | a ∈ l})
    (hstop : ¬(0 < k ∧ cmpAt cmp l k (parent k) < 0)) : Ordered cmp l := by
  intro j hj
  by_cases hjk : j = k
  · rw [hjk] at hj ⊢
    rw [cmpAt_total hc]
    exact not_lt.1 fun hlt => hstop ⟨hj, hlt⟩
  · exact h.others j hj hjk

theorem UpOrder.siftUp {fuel k : ℕ} (h : UpOrder cmp l k) (hc : Contract cmp {a | a ∈ l}) (hfuel : k ≤ fuel) :
    Ordered cmp (siftUp cmp fuel k l) := by
  induction fuel generalizing k l with
  | zero => exact h.finish hc (by omega)
  | succ fuel ih =>
    rw [PriorityQueue.siftUp]
    split_ifs with hup
    · have hp := parent_lt hup.1
      exact ih (h.move hc hup.1 hup.2) (contract_perm (List.swap_perm _ _ _) hc) (by omega)
    · exact h.finish hc hup

theorem cmpAt_append {x : α} {i j : ℕ} (hi : i < l.length) (hj : j < l.length) :
    cmpAt cmp (l ++ [x]) i j = cmpAt cmp l i j := by
  rw [cmpAt, cmpAt, List.getElem?_append_left hi, List.getElem?_append_left hj]

/-- **A new element keeps the order.** -/
theorem Ordered.offer {x : α} (h : Ordered cmp l) (hc : Contract cmp {a | a ∈ x :: l}) : Ordered cmp (offer cmp x l) := by
  have hc' : Contract cmp {a | a ∈ l ++ [x]} := contract_perm (List.perm_append_singleton x l) hc
  refine UpOrder.siftUp ⟨fun j hj hjk => ?_, fun _ j hj hjk => ?_⟩ hc' le_rfl
  · have hp := parent_lt hj
    by_cases hjl : j < l.length
    · rw [cmpAt_append (by omega) hjl]
      exact h j hj
    · rw [cmpAt_of_le (.inr _)]
      rw [List.length_append, List.length_singleton]
      omega
  · have hp := parent_lt hj
    rw [cmpAt_of_le (.inr _)]
    rw [List.length_append, List.length_singleton]
    omega

/-! ## Moving down -/

/-- The places of the children. -/
theorem parent_eq {j k : ℕ} (hj : 0 < j) : parent j = k ↔ j = 2 * k + 1 ∨ j = 2 * k + 2 := by
  unfold parent
  omega

theorem parent_firstChild (cmp : α → α → ℤ) (l : List α) (k : ℕ) :
    parent (firstChild cmp l k) = k ∧ k < firstChild cmp l k := by
  unfold firstChild parent
  split_ifs <;> omega

/-- The first child comes before the other one. -/
theorem firstChild_le (hc : Contract cmp {a | a ∈ l}) {j k : ℕ} (hj : 0 < j) (hjk : parent j = k) :
    cmpAt cmp l (firstChild cmp l k) j ≤ 0 := by
  have hself : ∀ i, cmpAt cmp l i i ≤ 0 := by
    intro i
    have htotal := cmpAt_total hc i i
    omega
  unfold firstChild
  rcases (parent_eq hj).1 hjk with rfl | rfl
  · split_ifs with hright
    · rw [cmpAt_total hc]
      exact hright.le
    · exact hself _
  · split_ifs with hright
    · exact hself _
    · exact not_lt.1 hright

theorem DownOrder.move {k : ℕ} (h : DownOrder cmp l k) (hc : Contract cmp {a | a ∈ l})
    (hlt : 0 < cmpAt cmp l k (firstChild cmp l k)) :
    DownOrder cmp (l.swap k (firstChild cmp l k)) (firstChild cmp l k) := by
  obtain ⟨hkl, hcl⟩ := lt_of_cmpAt_ne hlt.ne'
  obtain ⟨hparent, hkc⟩ := parent_firstChild cmp l k
  have hfirst := fun j hj hjk => firstChild_le hc (j := j) (k := k) hj hjk
  generalize firstChild cmp l k = c at *
  constructor
  · intro j hj hjc
    rw [cmpAt_swap hkl hcl]
    have hjp := parent_lt hj
    by_cases hjk : j = k
    · rw [hjk] at hj hjp hjc ⊢
      rw [Equiv.swap_apply_of_ne_of_ne (by omega) hjc, Equiv.swap_apply_left]
      exact h.children hj c (by omega) hparent
    by_cases hchild : parent j = k
    · rw [hchild, Equiv.swap_apply_left]
      by_cases hjfirst : j = c
      · rw [hjfirst, Equiv.swap_apply_right, cmpAt_total hc]
        exact hlt.le
      · rw [Equiv.swap_apply_of_ne_of_ne hjk hjfirst]
        exact hfirst j hj hchild
    · have hjfirst : j ≠ c := by
        rintro rfl
        exact hchild hparent
      rw [Equiv.swap_apply_of_ne_of_ne hchild hjc, Equiv.swap_apply_of_ne_of_ne hjk hjfirst]
      exact h.others j hj hchild
  · intro _ j hj hjc
    have hjp := parent_lt hj
    rw [cmpAt_swap hkl hcl, hparent, Equiv.swap_apply_left, Equiv.swap_apply_of_ne_of_ne (by omega) (by omega)]
    have hbefore := h.others j hj (by omega)
    rwa [hjc] at hbefore

theorem DownOrder.finish {k : ℕ} (h : DownOrder cmp l k) (hc : Contract cmp {a | a ∈ l})
    (hstop : ¬0 < cmpAt cmp l k (firstChild cmp l k)) : Ordered cmp l := by
  intro j hj
  by_cases hjk : parent j = k
  · have hfirst := firstChild_le hc hj hjk
    rw [hjk]
    by_cases hcl : firstChild cmp l k < l.length
    · exact cmpAt_trans hc hcl (not_lt.1 hstop) hfirst
    · -- without a first child there is no other one
      have hcase := (parent_eq hj).1 hjk
      have hcfirst : firstChild cmp l k = 2 * k + 1 ∨ 0 < cmpAt cmp l (2 * k + 1) (2 * k + 2) := by
        unfold firstChild
        split_ifs with hright
        · exact .inr hright
        · exact .inl rfl
      rw [cmpAt_of_le (.inr _)]
      rcases hcfirst with heq | hright
      · omega
      · have hinside := lt_of_cmpAt_ne hright.ne'
        rw [firstChild, if_pos hright] at hcl
        omega
  · exact h.others j hj hjk

theorem DownOrder.siftDown {fuel k : ℕ} (h : DownOrder cmp l k) (hc : Contract cmp {a | a ∈ l})
    (hfuel : l.length ≤ k + fuel) : Ordered cmp (siftDown cmp fuel k l) := by
  induction fuel generalizing k l with
  | zero => exact h.finish hc (by rw [cmpAt_of_le (.inl (by omega))]; exact lt_irrefl 0)
  | succ fuel ih =>
    have hkc := (parent_firstChild cmp l k).2
    rw [PriorityQueue.siftDown]
    split_ifs with hdown
    · exact ih (h.move hc hdown) (contract_perm (List.swap_perm _ _ _) hc) (by rw [List.length_swap]; omega)
    · exact h.finish hc hdown

/-- **Taking the first element keeps the order.** -/
theorem Ordered.poll {a : α} {l' : List α} (h : Ordered cmp l) (hc : Contract cmp {b | b ∈ l})
    (hpoll : poll cmp l = some (a, l')) : Ordered cmp l' := by
  match l with
  | [] => cases hpoll
  | [_] =>
    cases hpoll
    intro j hj
    rw [cmpAt_of_le (.inl (Nat.zero_le _))]
  | b :: c :: l =>
    cases hpoll
    have hperm : (c :: l).getLast (List.cons_ne_nil c l) :: (c :: l).dropLast ~ c :: l := by
      refine (List.perm_append_singleton _ _).symm.trans ?_
      rw [List.dropLast_concat_getLast]
    have hc' : Contract cmp {x | x ∈ (c :: l).getLast (List.cons_ne_nil c l) :: (c :: l).dropLast} :=
      hc.mono fun x hx => List.mem_cons_of_mem _ (hperm.mem_iff.1 hx)
    refine DownOrder.siftDown ⟨fun j hj hjk => ?_, fun hpos => absurd hpos (lt_irrefl 0)⟩ hc' ?_
    · -- behind the first place nothing has changed
      have hplace : ∀ i, 0 < i → i < l.length + 1 →
          ((c :: l).getLast (List.cons_ne_nil c l) :: (c :: l).dropLast)[i]? = (a :: c :: l)[i]? := by
        intro i hi hil
        obtain ⟨i, rfl⟩ := Nat.exists_eq_add_one_of_ne_zero hi.ne'
        rw [List.getElem?_cons_succ, List.getElem?_cons_succ, List.getElem?_dropLast, if_pos]
        rw [List.length_cons]
        omega
      have hp := parent_lt hj
      by_cases hjl : j < l.length + 1
      · rw [cmpAt, hplace _ (Nat.pos_of_ne_zero hjk) (by omega), hplace j hj hjl]
        exact h j hj
      · rw [cmpAt_of_le (.inr _)]
        rw [List.length_cons, List.length_dropLast, List.length_cons]
        omega
    · simp

/-- **The first element is least.** -/
theorem Ordered.head_le {a : α} (h : Ordered cmp l) (hc : Contract cmp {b | b ∈ l}) (ha : l.head? = some a) :
    ∀ b ∈ l, cmp a b ≤ 0 := by
  have hfirst : ∀ j, cmpAt cmp l 0 j ≤ 0 := by
    intro j
    induction j using Nat.strong_induction_on with
    | _ j ih =>
      rcases Nat.eq_zero_or_pos j with rfl | hj
      · have htotal := cmpAt_total hc 0 0
        omega
      · have hp := parent_lt hj
        by_cases hjl : j < l.length
        · exact cmpAt_trans hc (by omega) (ih _ hp) (h j hj)
        · rw [cmpAt_of_le (.inr (not_lt.1 hjl))]
  intro b hb
  obtain ⟨j, hj, rfl⟩ := List.mem_iff_getElem.1 hb
  have hle := hfirst j
  rwa [cmpAt, List.getElem?_eq_getElem hj, ← List.head?_eq_getElem?, ha] at hle

end Lib.PriorityQueue
