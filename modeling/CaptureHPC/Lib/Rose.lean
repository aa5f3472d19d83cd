import Mathlib

/-!
# Rose trees and keyed insertion

`modifyFirst p f t` rewrites the first node of `t`, in preorder, whose label
satisfies `p`; `modifyFirstAll` does so in a forest, tree by tree. The lemmas say when
a node is found (`modifyFirst_eq_none`) and which one (`modifyFirst_at`), what the rewrite adds to the values stored in
the tree (`modifyFirst_perm`), and that it keeps the root's key (`modifyFirst_label`), a
predicate of the labels (`modifyFirst_forall`) and a relation along the edges
(`modifyFirst_edges`).
-/

namespace Lib

universe u v

/-- A rose tree. -/
inductive Rose (α : Type u) : Type u
  | node (label : α) (children : List (Rose α))

namespace Rose

variable {α : Type u} {β γ : Type v}

/-- The label of the root. -/
def label : Rose α → α
  | node a _ => a

/-- The subtrees below the root. -/
def children : Rose α → List (Rose α)
  | node _ ts => ts

/-- Induction over a tree from all its subtrees below the root. -/
theorem induct {P : Rose α → Prop} (h : ∀ a ts, (∀ t ∈ ts, P t) → P (node a ts)) (t : Rose α) : P t :=
  @Rose.rec α P (fun ts => ∀ t ∈ ts, P t) h (by simp)
    (fun t ts ht hts x hx => by
      rcases List.mem_cons.1 hx with rfl | hx
      · exact ht
      · exact hts x hx) t

mutual

/-- All labels, in preorder. -/
def labels : Rose α → List α
  | node a ts => a :: labelsAll ts

/-- All labels of a forest. -/
def labelsAll : List (Rose α) → List α
  | [] => []
  | t :: ts => labels t ++ labelsAll ts

end

mutual

/-- Rewrite the first node, in preorder, whose label satisfies `p`. -/
def modifyFirst (p : α → Bool) (f : α → List (Rose α) → Rose α) : Rose α → Option (Rose α)
  | node a ts => if p a then some (f a ts) else (modifyFirstAll p f ts).map (node a)

/-- Rewrite the first such node of a forest. -/
def modifyFirstAll (p : α → Bool) (f : α → List (Rose α) → Rose α) :
    List (Rose α) → Option (List (Rose α))
  | [] => none
  | t :: ts =>
    match modifyFirst p f t with
    | some t' => some (t' :: ts)
    | none => (modifyFirstAll p f ts).map (t :: ·)

end

theorem labels_node (a : α) (ts : List (Rose α)) : (node a ts).labels = a :: labelsAll ts := by
  rw [labels]

theorem labelsAll_eq (ts : List (Rose α)) : labelsAll ts = ts.flatMap labels := by
  induction ts with
  | nil => rfl
  | cons t ts ih => rw [labelsAll, ih, List.flatMap_cons]

theorem mem_labelsAll {ts : List (Rose α)} {a : α} : a ∈ labelsAll ts ↔ ∃ t ∈ ts, a ∈ t.labels := by
  rw [labelsAll_eq, List.mem_flatMap]

theorem label_mem_labels (t : Rose α) : t.label ∈ t.labels := by
  cases t with
  | node a ts => rw [labels_node]; exact List.mem_cons_self

variable {p : α → Bool} {f : α → List (Rose α) → Rose α}

theorem modifyFirst_node (a : α) (ts : List (Rose α)) : modifyFirst p f (node a ts) =
    if p a then some (f a ts) else (modifyFirstAll p f ts).map (node a) := by
  rw [modifyFirst]

/-! ## When a node is found -/

theorem modifyFirstAll_eq_none_of {ts : List (Rose α)}
    (h : ∀ t ∈ ts, (modifyFirst p f t = none ↔ ∀ a ∈ t.labels, p a = false)) :
    modifyFirstAll p f ts = none ↔ ∀ a ∈ labelsAll ts, p a = false := by
  induction ts with
  | nil => simp [modifyFirstAll, labelsAll]
  | cons t ts ih =>
    have ht := h t List.mem_cons_self
    have hts := ih fun x hx => h x (List.mem_cons_of_mem _ hx)
    rw [modifyFirstAll, labelsAll]
    cases hm : modifyFirst p f t with
    | some t' =>
      rw [hm] at ht
      simp only [reduceCtorEq, false_iff] at ht ⊢
      intro hall
      exact ht fun a ha => hall a (List.mem_append_left _ ha)
    | none =>
      simp only [Option.map_eq_none_iff, hts, List.mem_append]
      exact ⟨fun h1 a ha => ha.elim (ht.1 hm a) (h1 a), fun h1 a ha => h1 a (Or.inr ha)⟩

/-- Nothing is rewritten exactly when no label satisfies `p`. -/
theorem modifyFirst_eq_none (t : Rose α) : modifyFirst p f t = none ↔ ∀ a ∈ t.labels, p a = false := by
  induction t using induct with
  | h a ts ih =>
    rw [modifyFirst_node, labels_node]
    by_cases ha : p a = true
    · rw [if_pos ha]
      simp [ha]
    · rw [if_neg ha, Option.map_eq_none_iff, modifyFirstAll_eq_none_of ih]
      simp only [Bool.not_eq_true] at ha
      simp [ha]

theorem modifyFirstAll_eq_none (ts : List (Rose α)) :
    modifyFirstAll p f ts = none ↔ ∀ a ∈ labelsAll ts, p a = false :=
  modifyFirstAll_eq_none_of fun t _ => modifyFirst_eq_none t

/-- A rewrite of a forest is a rewrite of its first tree that has a node to rewrite. -/
theorem modifyFirstAll_split {ts ts' : List (Rose α)} (h : modifyFirstAll p f ts = some ts') :
    ∃ l t t' r, ts = l ++ t :: r ∧ ts' = l ++ t' :: r ∧ modifyFirst p f t = some t' := by
  induction ts generalizing ts' with
  | nil => simp [modifyFirstAll] at h
  | cons t ts ih =>
    rw [modifyFirstAll] at h
    cases hm : modifyFirst p f t with
    | some t' =>
      rw [hm] at h
      simp only [Option.some.injEq] at h
      exact ⟨[], t, t', ts, rfl, h.symm, hm⟩
    | none =>
      rw [hm] at h
      simp only [Option.map_eq_some_iff] at h
      obtain ⟨us, hus, rfl⟩ := h
      obtain ⟨l, x, x', r, rfl, rfl, hx⟩ := ih hus
      exact ⟨t :: l, x, x', r, rfl, rfl, hx⟩

/-- **Induction over a rewrite.** What holds of the rewritten node, and is passed on from
a rewritten subtree to the tree around it, holds of the rewritten tree. -/
theorem modifyFirst_induct {P : Rose α → Rose α → Prop}
    (hit : ∀ a ts, p a = true → P (node a ts) (f a ts))
    (below : ∀ a l t t' r, p a = false → modifyFirst p f t = some t' → P t t' →
      P (node a (l ++ t :: r)) (node a (l ++ t' :: r)))
    {t t' : Rose α} (h : modifyFirst p f t = some t') : P t t' := by
  induction t using induct generalizing t' with
  | h a ts ih =>
    rw [modifyFirst_node] at h
    by_cases ha : p a = true
    · rw [if_pos ha, Option.some.injEq] at h
      subst h
      exact hit a ts ha
    · rw [if_neg ha, Option.map_eq_some_iff] at h
      obtain ⟨us, hus, rfl⟩ := h
      obtain ⟨l, x, x', r, rfl, rfl, hx⟩ := modifyFirstAll_split hus
      exact below a l x x' r (by simpa using ha) hx (ih x (by simp) hx)

/-- Where the nodes of a forest are rewritten, from what is known of its trees. -/
theorem modifyFirstAll_at_of {ts ts' : List (Rose α)}
    (ih : ∀ t ∈ ts, ∀ t', modifyFirst p f t = some t' → ∃ l a us r,
      t.labels = l ++ (node a us).labels ++ r ∧ t'.labels = l ++ (f a us).labels ++ r ∧
        (∀ b ∈ l, p b = false) ∧ p a = true)
    (h : modifyFirstAll p f ts = some ts') : ∃ l a us r,
      labelsAll ts = l ++ (node a us).labels ++ r ∧ labelsAll ts' = l ++ (f a us).labels ++ r ∧
        (∀ b ∈ l, p b = false) ∧ p a = true := by
  induction ts generalizing ts' with
  | nil => simp [modifyFirstAll] at h
  | cons t ts iht =>
    rw [modifyFirstAll] at h
    cases hm : modifyFirst p f t with
    | some t' =>
      rw [hm] at h
      simp only [Option.some.injEq] at h
      subst h
      obtain ⟨l, a, us, r, ht, ht', hl, ha⟩ := ih t List.mem_cons_self t' hm
      refine ⟨l, a, us, r ++ labelsAll ts, ?_, ?_, hl, ha⟩
      · rw [labelsAll, ht]; simp only [List.append_assoc]
      · rw [labelsAll, ht']; simp only [List.append_assoc]
    | none =>
      rw [hm] at h
      simp only [Option.map_eq_some_iff] at h
      obtain ⟨ws, hws, rfl⟩ := h
      obtain ⟨l, a, us, r, hs, hs', hl, ha⟩ := iht (fun x hx => ih x (List.mem_cons_of_mem _ hx)) hws
      refine ⟨t.labels ++ l, a, us, r, ?_, ?_, fun b hb => ?_, ha⟩
      · rw [labelsAll, hs]; simp only [List.append_assoc]
      · rw [labelsAll, hs']; simp only [List.append_assoc]
      · rcases List.mem_append.1 hb with hb | hb
        · exact (modifyFirst_eq_none t).1 hm b hb
        · exact hl b hb

/-- **Where a rewrite happens**: at the first node in preorder whose label satisfies `p`;
the labels before and behind its subtree stay. -/
theorem modifyFirst_at {t t' : Rose α} (h : modifyFirst p f t = some t') : ∃ l a us r,
    t.labels = l ++ (node a us).labels ++ r ∧ t'.labels = l ++ (f a us).labels ++ r ∧
      (∀ b ∈ l, p b = false) ∧ p a = true := by
  induction t using induct generalizing t' with
  | h a ts ih =>
    rw [modifyFirst_node] at h
    by_cases ha : p a = true
    · rw [if_pos ha, Option.some.injEq] at h
      subst h
      exact ⟨[], a, ts, [], by simp, by simp, by simp, ha⟩
    · rw [if_neg ha, Option.map_eq_some_iff] at h
      obtain ⟨us, hus, rfl⟩ := h
      obtain ⟨l, b, vs, r, hs, hs', hl, hb⟩ := modifyFirstAll_at_of (fun t ht _ => ih t ht) hus
      refine ⟨a :: l, b, vs, r, ?_, ?_, fun c hc => ?_, hb⟩
      · rw [labels_node, hs, List.cons_append, List.cons_append]
      · rw [labels_node, hs', List.cons_append, List.cons_append]
      · rcases List.mem_cons.1 hc with rfl | hc
        · simpa using ha
        · exact hl c hc

theorem modifyFirstAll_at {ts ts' : List (Rose α)} (h : modifyFirstAll p f ts = some ts') : ∃ l a us r,
    labelsAll ts = l ++ (node a us).labels ++ r ∧ labelsAll ts' = l ++ (f a us).labels ++ r ∧
      (∀ b ∈ l, p b = false) ∧ p a = true :=
  modifyFirstAll_at_of (fun _ _ _ => modifyFirst_at) h

/-! ## What a rewrite keeps and adds -/

/-- Replacing a part of a list by that part and something more. -/
theorem perm_replace {a x x' c e : List β} (h : x'.Perm (e ++ x)) :
    (a ++ (x' ++ c)).Perm (e ++ (a ++ (x ++ c))) :=
  calc (a ++ (x' ++ c)).Perm (a ++ ((e ++ x) ++ c)) := (h.append_right c).append_left a
    _ = a ++ (e ++ (x ++ c)) := by rw [List.append_assoc]
    List.Perm _ (e ++ (a ++ (x ++ c))) := List.perm_append_comm_assoc a e (x ++ c)

/-- **The values of a rewritten tree** are the old ones and what the rewrite adds. -/
theorem modifyFirst_perm {val : α → List β} {extra : List β}
    (hf : ∀ a ts, p a = true → ((f a ts).labels.flatMap val).Perm
      (extra ++ (node a ts).labels.flatMap val))
    {t t' : Rose α} (h : modifyFirst p f t = some t') :
    (t'.labels.flatMap val).Perm (extra ++ t.labels.flatMap val) := by
  refine modifyFirst_induct (P := fun t t' => (t'.labels.flatMap val).Perm
    (extra ++ t.labels.flatMap val)) hf ?_ h
  intro a l t t' r _ _ ih
  simp only [labels_node, labelsAll_eq, List.flatMap_cons, List.flatMap_append]
  rw [← List.append_assoc, ← List.append_assoc (val a)]
  exact perm_replace ih

theorem modifyFirstAll_perm {val : α → List β} {extra : List β}
    (hf : ∀ a ts, p a = true → ((f a ts).labels.flatMap val).Perm
      (extra ++ (node a ts).labels.flatMap val))
    {ts ts' : List (Rose α)} (h : modifyFirstAll p f ts = some ts') :
    ((labelsAll ts').flatMap val).Perm (extra ++ (labelsAll ts).flatMap val) := by
  obtain ⟨l, t, t', r, rfl, rfl, ht⟩ := modifyFirstAll_split h
  simp only [labelsAll_eq, List.flatMap_append, List.flatMap_cons]
  exact perm_replace (modifyFirst_perm hf ht)

/-- A rewrite that keeps a key of the rewritten label keeps the key of the root. -/
theorem modifyFirst_label {k : α → γ} (hf : ∀ a ts, p a = true → k (f a ts).label = k a)
    {t t' : Rose α} (h : modifyFirst p f t = some t') : k t'.label = k t.label :=
  modifyFirst_induct (P := fun t t' => k t'.label = k t.label) hf (fun _ _ _ _ _ _ _ _ => rfl) h

theorem modifyFirstAll_label {k : α → γ} (hf : ∀ a ts, p a = true → k (f a ts).label = k a)
    {ts ts' : List (Rose α)} (h : modifyFirstAll p f ts = some ts') :
    ts'.map (fun t => k t.label) = ts.map fun t => k t.label := by
  obtain ⟨l, t, t', r, rfl, rfl, ht⟩ := modifyFirstAll_split h
  simp [modifyFirst_label hf ht]

/-- A predicate of all labels that the rewrite of a node keeps. -/
theorem modifyFirst_forall {P : α → Prop}
    (hf : ∀ a ts, p a = true → (∀ b ∈ (node a ts).labels, P b) → ∀ b ∈ (f a ts).labels, P b)
    {t t' : Rose α} (h : modifyFirst p f t = some t') (hP : ∀ b ∈ t.labels, P b) :
    ∀ b ∈ t'.labels, P b := by
  refine modifyFirst_induct (P := fun t t' => (∀ b ∈ t.labels, P b) → ∀ b ∈ t'.labels, P b)
    hf ?_ h hP
  intro a l t t' r _ _ ih hall b hb
  simp only [labels_node, labelsAll_eq, List.flatMap_append, List.flatMap_cons, List.mem_cons,
    List.mem_append] at hall hb
  rcases hb with rfl | hb | hb | hb
  · exact hall _ (Or.inl rfl)
  · exact hall b (Or.inr (Or.inl hb))
  · exact ih (fun c hc => hall c (Or.inr (Or.inr (Or.inl hc)))) b hb
  · exact hall b (Or.inr (Or.inr (Or.inr hb)))

/-! ## Edges -/

/-- `R` holds from each label to the labels of its children. -/
inductive Edges (R : α → α → Prop) : Rose α → Prop
  | node {a : α} {ts : List (Rose α)} (edge : ∀ t ∈ ts, R a t.label) (sub : ∀ t ∈ ts, Edges R t) :
      Edges R (node a ts)

variable {R : α → α → Prop}

theorem edges_node {a : α} {ts : List (Rose α)} :
    Edges R (node a ts) ↔ (∀ t ∈ ts, R a t.label) ∧ ∀ t ∈ ts, Edges R t :=
  ⟨fun | .node h1 h2 => ⟨h1, h2⟩, fun h => .node h.1 h.2⟩

/-- A rewrite keeps a relation along the edges that depends on keys it does not change. -/
theorem modifyFirst_edges {k : α → γ} {S : γ → γ → Prop}
    (hk : ∀ a ts, p a = true → k (f a ts).label = k a)
    (hf : ∀ a ts, p a = true → Edges (fun a b => S (k a) (k b)) (node a ts) →
      Edges (fun a b => S (k a) (k b)) (f a ts))
    {t t' : Rose α} (h : modifyFirst p f t = some t') (he : Edges (fun a b => S (k a) (k b)) t) :
    Edges (fun a b => S (k a) (k b)) t' := by
  refine modifyFirst_induct (P := fun t t' => Edges (fun a b => S (k a) (k b)) t →
    Edges (fun a b => S (k a) (k b)) t') hf ?_ h he
  intro a l t t' r _ ht ih hn
  rw [edges_node] at hn ⊢
  obtain ⟨h1, h2⟩ := hn
  have hkt := modifyFirst_label hk ht
  constructor
  · intro x hx
    rcases List.mem_append.1 hx with hx | hx
    · exact h1 x (List.mem_append_left _ hx)
    · rcases List.mem_cons.1 hx with rfl | hx
      · rw [hkt]; exact h1 t (by simp)
      · exact h1 x (by simp [hx])
  · intro x hx
    rcases List.mem_append.1 hx with hx | hx
    · exact h2 x (List.mem_append_left _ hx)
    · rcases List.mem_cons.1 hx with rfl | hx
      · exact ih (h2 t (by simp))
      · exact h2 x (by simp [hx])

/-- Every label below the root has a parent in the tree. -/
theorem Edges.parent {t : Rose α} (h : Edges R t) :
    ∀ b ∈ t.labels, b = t.label ∨ ∃ a ∈ t.labels, R a b := by
  induction t using induct with
  | h a ts ih =>
    rw [edges_node] at h
    obtain ⟨h1, h2⟩ := h
    intro b hb
    rw [labels_node] at hb ⊢
    rcases List.mem_cons.1 hb with rfl | hb
    · exact Or.inl rfl
    · obtain ⟨t, ht, hbt⟩ := mem_labelsAll.1 hb
      right
      rcases ih t ht (h2 t ht) b hbt with rfl | ⟨c, hc, hcb⟩
      · exact ⟨a, List.mem_cons_self, h1 t ht⟩
      · exact ⟨c, List.mem_cons_of_mem _ (mem_labelsAll.2 ⟨t, ht, hc⟩), hcb⟩

/-- Every label is connected to the root by a chain of edges inside the tree. -/
theorem Edges.chain {t : Rose α} (h : Edges R t) : ∀ b ∈ t.labels,
    Relation.ReflTransGen (fun x y => R y x ∧ y ∈ t.labels) b t.label := by
  induction t using induct with
  | h a ts ih =>
    rw [edges_node] at h
    obtain ⟨h1, h2⟩ := h
    intro b hb
    rw [labels_node] at hb
    rcases List.mem_cons.1 hb with rfl | hb
    · exact Relation.ReflTransGen.refl
    · obtain ⟨t, ht, hbt⟩ := mem_labelsAll.1 hb
      have hsub : ∀ c ∈ t.labels, c ∈ (Rose.node a ts).labels := fun c hc => by
        rw [labels_node]; exact List.mem_cons_of_mem _ (mem_labelsAll.2 ⟨t, ht, hc⟩)
      have hle : (fun x y => R y x ∧ y ∈ t.labels) ≤ fun x y => R y x ∧ y ∈ (Rose.node a ts).labels :=
        fun x y hxy => ⟨hxy.1, hsub y hxy.2⟩
      have hc := Relation.ReflTransGen.mono hle b t.label (ih t ht (h2 t ht) b hbt)
      exact hc.tail ⟨h1 t ht, label_mem_labels _⟩

end Rose

end Lib
