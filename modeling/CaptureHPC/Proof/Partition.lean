import CaptureHPC.Proof.Conservation

/-!
# The CSV strings and the remainder

`getStateChangesCSV` prints the first tree whose root has the asked pid as its own id or
its parent id; `getRemainderStateChangesCSV` prints every tree whose root's own id is not
listed. A tree is printed exactly once when, of its two ids, exactly one selects it and
its own id is listed, or none selects it and its own id is not listed (`PrintedOnce`). So
the two queries do not partition the recorded changes in general: a second tree with the
same root id is printed by neither, and a tree selected by its parent id by both
(`exited_not_partitioned`); `csv_partition_iff` says when they do.

A recorded change is named by its place: the number of its tree, and its number in the
tree's `getAllStateChanges`.
-/

namespace CaptureHPC

open Lib ProcessStateChange StateChangeHandler

variable {sdf : SimpleDateFormat} {h : StateChangeHandler} {L : List Int32}

namespace StateChangeHandler

/-- The state change at a place. -/
def changeAt (h : StateChangeHandler) (c : ℕ × ℕ) : Option StateChange :=
  h.processTrees[c.1]?.bind fun t => t.getAllStateChanges[c.2]?

/-- The places of a tree. -/
def treePlaces (h : StateChangeHandler) (i : ℕ) : List (ℕ × ℕ) :=
  match h.processTrees[i]? with
  | some t => (List.range t.getAllStateChanges.length).map fun k => (i, k)
  | none => []

/-- The number of the tree that `getStateChangesCSV` prints. -/
def csvTree (h : StateChangeHandler) (p : Int32) : Option ℕ :=
  match h.processTrees.findIdx? (accepts p) with
  | some i => some i
  | none => if h.processTrees.length = 1 ∧ p = 0 then some 0 else none

/-- The places in the string of `getStateChangesCSV`. -/
def csvPlaces (h : StateChangeHandler) (p : Int32) : List (ℕ × ℕ) := (h.csvTree p).elim [] h.treePlaces

/-- The numbers of the trees that `getRemainderStateChangesCSV` prints. -/
def remainderIdx (h : StateChangeHandler) (L : List Int32) : List ℕ :=
  (List.range h.processTrees.length).filter fun i =>
    h.processTrees[i]?.any fun t => !L.contains t.processId

/-- The places in the string of `getRemainderStateChangesCSV`. -/
def remainderPlaces (h : StateChangeHandler) (L : List Int32) : List (ℕ × ℕ) :=
  (h.remainderIdx L).flatMap h.treePlaces

/-- How often the change at a place occurs in the strings for the listed pids and in the
remainder's string. -/
def occurrences (h : StateChangeHandler) (L : List Int32) (c : ℕ × ℕ) : ℕ :=
  (L.flatMap h.csvPlaces).count c + (h.remainderPlaces L).count c

end StateChangeHandler

/-! ## The places are the strings -/

theorem range_getElem? {α : Type} (l : List α) (n : ℕ) :
    (List.range n).filterMap (fun k => l[k]?) = l.take n := by
  induction n with
  | zero => rfl
  | succ n ih =>
    rw [List.range_succ, List.filterMap_append, ih, List.take_add_one]
    cases h : l[n]? <;> simp [h]

theorem range_filter_flatMap {α β : Type} (l : List α) (q : α → Bool) (f : α → List β) (n : ℕ) :
    ((List.range n).filter fun i => l[i]?.any q).flatMap (fun i => l[i]?.elim [] f) =
      ((l.take n).filter q).flatMap f := by
  induction n with
  | zero => rfl
  | succ n ih =>
    rw [List.range_succ, List.filter_append, List.flatMap_append, ih, List.take_add_one,
      List.filter_append, List.flatMap_append]
    cases h : l[n]? with
    | none => simp [h]
    | some a => cases hq : q a <;> simp [h, hq]

theorem treePlaces_changes (h : StateChangeHandler) (i : ℕ) :
    (h.treePlaces i).filterMap h.changeAt = h.processTrees[i]?.elim [] getAllStateChanges := by
  unfold treePlaces
  cases ht : h.processTrees[i]? with
  | none => rfl
  | some t =>
    have hfun : (h.changeAt ∘ fun k => (i, k)) = fun k => t.getAllStateChanges[k]? := by
      funext k
      simp [changeAt, ht]
    simp only [List.filterMap_map, hfun, range_getElem?, List.take_length, Option.elim_some]

/-- `getCSVofTree` prints the changes at the tree's places. -/
theorem getCSVofTree_places {t : ProcessStateChange} {i : ℕ} (ht : h.processTrees[i]? = some t) :
    getCSVofTree sdf t =
      String.join (((h.treePlaces i).filterMap h.changeAt).map (StateChange.toCSV sdf)) := by
  rw [treePlaces_changes, ht]
  rfl

theorem getStateChangesCSV_places (sdf : SimpleDateFormat) (h : StateChangeHandler) (p : Int32) :
    getStateChangesCSV sdf h p =
      String.join (((h.csvPlaces p).filterMap h.changeAt).map (StateChange.toCSV sdf)) := by
  unfold getStateChangesCSV csvPlaces csvTree
  rw [List.find?_eq_bind_findIdx?_getElem?]
  cases hf : h.processTrees.findIdx? (accepts p) with
  | some i =>
    obtain ⟨hi, -, -⟩ := List.findIdx?_eq_some_iff_getElem.1 hf
    have ht := List.getElem?_eq_getElem hi
    simp only [Option.bind_some, ht, Option.elim_some]
    exact getCSVofTree_places ht
  | none =>
    simp only [Option.bind_none]
    rcases hl : h.processTrees with _ | ⟨t, _ | ⟨t', ts⟩⟩
    · simp [String.join_nil]
    · by_cases hp : p = 0
      · have ht : h.processTrees[0]? = some t := by rw [hl]; rfl
        simp only [List.length_singleton, hp, and_self, if_true, Option.elim_some]
        exact getCSVofTree_places ht
      · simp [hp, String.join_nil]
    · simp [String.join_nil]

theorem join_flatMap (l : List ProcessStateChange) :
    String.join (l.map (getCSVofTree sdf)) =
      String.join ((l.flatMap getAllStateChanges).map (StateChange.toCSV sdf)) := by
  induction l with
  | nil => rfl
  | cons t l ih =>
    rw [List.map_cons, String.join_cons, List.flatMap_cons, List.map_append, String.join_append, ih,
      getCSVofTree]

theorem getRemainderStateChangesCSV_places (sdf : SimpleDateFormat) (h : StateChangeHandler)
    (L : List Int32) : getRemainderStateChangesCSV sdf h L =
      String.join (((h.remainderPlaces L).filterMap h.changeAt).map (StateChange.toCSV sdf)) := by
  have hch : (h.remainderPlaces L).filterMap h.changeAt =
      (h.remainderTrees L).flatMap getAllStateChanges := by
    simp only [remainderPlaces, List.filterMap_flatMap, treePlaces_changes, remainderIdx]
    rw [range_filter_flatMap, List.take_length]
    rfl
  rw [getRemainderStateChangesCSV, hch, join_flatMap]

/-! ## How often a tree is printed -/

theorem mem_treePlaces {i : ℕ} {c : ℕ × ℕ} (hc : c ∈ h.treePlaces i) : c.1 = i := by
  unfold treePlaces at hc
  cases ht : h.processTrees[i]? with
  | none => simp [ht] at hc
  | some t =>
    simp only [ht, List.mem_map] at hc
    obtain ⟨k, -, rfl⟩ := hc
    rfl

/-- A recorded change is once at the places of its tree. -/
theorem count_treePlaces {c : ℕ × ℕ} (hc : (h.changeAt c).isSome) (i : ℕ) :
    (h.treePlaces i).count c = if i = c.1 then 1 else 0 := by
  by_cases hi : i = c.1
  · subst hi
    rw [if_pos rfl]
    obtain ⟨sc, hsc⟩ := Option.isSome_iff_exists.1 hc
    obtain ⟨t, ht, hk⟩ := Option.bind_eq_some_iff.1 hsc
    have hplaces : h.treePlaces c.1 = (List.range t.getAllStateChanges.length).map fun k => (c.1, k) := by
      rw [treePlaces, ht]
    have hinj : Function.Injective fun k : ℕ => (c.1, k) := fun a b hab => (Prod.mk.inj hab).2
    rw [hplaces]
    refine List.count_eq_one_of_mem (List.Nodup.map hinj List.nodup_range) ?_
    obtain ⟨hlt, -⟩ := List.getElem?_eq_some_iff.1 hk
    exact List.mem_map.2 ⟨c.2, List.mem_range.2 hlt, rfl⟩
  · rw [if_neg hi, List.count_eq_zero]
    exact fun hmem => hi (mem_treePlaces hmem).symm

theorem count_flatMap_treePlaces {c : ℕ × ℕ} (hc : (h.changeAt c).isSome) (js : List ℕ) :
    (js.flatMap h.treePlaces).count c = js.count c.1 := by
  induction js with
  | nil => rfl
  | cons j js ih =>
    rw [List.flatMap_cons, List.count_append, ih, count_treePlaces hc, List.count_cons, add_comm]
    simp only [beq_iff_eq]

theorem count_flatMap_csvPlaces {c : ℕ × ℕ} (hc : (h.changeAt c).isSome) (L : List Int32) :
    (L.flatMap h.csvPlaces).count c = L.countP fun p => h.csvTree p = some c.1 := by
  induction L with
  | nil => rfl
  | cons p L ih =>
    rw [List.flatMap_cons, List.count_append, ih, List.countP_cons, add_comm, csvPlaces]
    congr 1
    cases hp : h.csvTree p with
    | none => simp
    | some i => simp [count_treePlaces hc]

theorem count_remainderIdx {t : ProcessStateChange} {i : ℕ} (ht : h.processTrees[i]? = some t)
    (L : List Int32) : (h.remainderIdx L).count i = if t.processId ∈ L then 0 else 1 := by
  obtain ⟨hi, -⟩ := List.getElem?_eq_some_iff.1 ht
  by_cases hL : t.processId ∈ L
  · rw [if_pos hL, List.count_eq_zero, remainderIdx, List.mem_filter]
    simp [ht, hL]
  · rw [if_neg hL]
    refine List.count_eq_one_of_mem (List.Nodup.filter _ List.nodup_range) ?_
    rw [remainderIdx, List.mem_filter]
    exact ⟨List.mem_range.2 hi, by simp [ht, hL]⟩

/-- How often a change is printed depends on its tree alone. -/
theorem occurrences_eq {c : ℕ × ℕ} {t : ProcessStateChange} (hc : (h.changeAt c).isSome)
    (ht : h.processTrees[c.1]? = some t) : h.occurrences L c =
      (L.countP fun p => h.csvTree p = some c.1) + if t.processId ∈ L then 0 else 1 := by
  rw [occurrences, count_flatMap_csvPlaces hc, remainderPlaces, count_flatMap_treePlaces hc,
    count_remainderIdx ht]

/-- Every tree has a recorded change: its root. -/
theorem getAllStateChanges_ne_nil (t : ProcessStateChange) : t.getAllStateChanges ≠ [] := by
  intro hnil
  have hp := getAllStateChanges_perm t
  rw [hnil] at hp
  cases t with
  | node n ts => simp [Rose.labels_node, ProcessNode.records] at hp

theorem changeAt_zero {t : ProcessStateChange} {i : ℕ} (ht : h.processTrees[i]? = some t) :
    (h.changeAt (i, 0)).isSome := by
  have hne := getAllStateChanges_ne_nil t
  simp only [changeAt, ht, Option.bind_some]
  cases hl : t.getAllStateChanges with
  | nil => exact absurd hl hne
  | cons sc scs => rfl

/-! ## In terms of the roots -/

/-- The id is the own id or the parent id of one of the roots. -/
def Taken (roots : List (Int32 × Int32)) (p : Int32) : Prop := ∃ i ∈ roots, i.1 = p ∨ i.2 = p

instance (roots : List (Int32 × Int32)) (p : Int32) : Decidable (Taken roots p) := by
  unfold Taken; infer_instance

/-- The listed pids that are an id of `root` and of no root before it. -/
def Selects (L : List Int32) (pre : List (Int32 × Int32)) (p : Int32) : Prop := p ∈ L ∧ ¬ Taken pre p

instance (L : List Int32) (pre : List (Int32 × Int32)) (p : Int32) : Decidable (Selects L pre p) := by
  unfold Selects; infer_instance

/-- The tree of `root`, after the trees of the roots `pre`, is printed exactly once: if its
own id is listed, exactly one of its two ids selects it; if not, its parent id does not. -/
def PrintedOnce (L : List Int32) (pre : List (Int32 × Int32)) (root : Int32 × Int32) : Prop :=
  if root.1 ∈ L then
    if Selects L pre root.1 then root.2 = root.1 ∨ ¬ Selects L pre root.2 else Selects L pre root.2
  else ¬ Selects L pre root.2

instance (L : List Int32) (pre : List (Int32 × Int32)) (root : Int32 × Int32) :
    Decidable (PrintedOnce L pre root) := by
  unfold PrintedOnce; infer_instance

/-- A pid other than 0 selects the first tree whose root has it as one of its ids. -/
theorem csvTree_eq_some {p : Int32} (hp : p ≠ 0) {pre post : List (Int32 × Int32)}
    {root : Int32 × Int32} (hr : h.roots = pre ++ root :: post) :
    h.csvTree p = some pre.length ↔ (root.1 = p ∨ root.2 = p) ∧ ¬ Taken pre p := by
  obtain ⟨ts, us, hts, hpre, hus⟩ := List.map_eq_append_iff.1 hr
  obtain ⟨t, us, rfl, rfl, -⟩ := List.map_eq_cons_iff.1 hus
  have hacc : ∀ s : ProcessStateChange, accepts p s = true ↔ s.label.ids.1 = p ∨ s.label.ids.2 = p := by
    intro s
    simp only [accepts, Bool.or_eq_true, beq_iff_eq]
    rfl
  have hlen : pre.length = ts.length := by rw [← hpre, List.length_map]
  have htree : h.csvTree p = h.processTrees.findIdx? (accepts p) := by
    unfold csvTree
    cases h.processTrees.findIdx? (accepts p) with
    | some i => rfl
    | none => simp [hp]
  have hfree : (∀ s ∈ ts, ¬ accepts p s = true) ↔ ¬ Taken pre p := by
    simp only [Taken, ← hpre, List.mem_map, hacc]
    constructor
    · rintro hall ⟨_, ⟨s, hs, rfl⟩, hi⟩
      exact hall s hs hi
    · intro hno s hs hi
      exact hno ⟨_, ⟨s, hs, rfl⟩, hi⟩
  rw [htree, hlen, hts, List.findIdx?_eq_some_iff_getElem, ← hacc, ← hfree]
  constructor
  · rintro ⟨hi, ht, hbefore⟩
    rw [List.getElem_append_right (le_refl _)] at ht
    simp only [Nat.sub_self, List.getElem_cons_zero] at ht
    refine ⟨ht, fun s hs => ?_⟩
    obtain ⟨j, hj, rfl⟩ := List.getElem_of_mem hs
    have hb := hbefore j hj
    rwa [List.getElem_append_left hj] at hb
  · rintro ⟨ht, hbefore⟩
    have hi : ts.length < (ts ++ t :: us).length := by simp
    refine ⟨hi, ?_, fun j hj => ?_⟩
    · rw [List.getElem_append_right (le_refl _)]
      simpa using ht
    · rw [List.getElem_append_left hj]
      exact hbefore _ (List.getElem_mem hj)

/-- Among the elements of a list without repetitions, how many are one of two values. -/
theorem countP_pair {L : List Int32} (hL : L.Nodup) (a b : Int32) (Q : Int32 → Prop) [DecidablePred Q] :
    (L.countP fun p => (a = p ∨ b = p) ∧ Q p) =
      (if a ∈ L ∧ Q a then 1 else 0) + if b ≠ a ∧ b ∈ L ∧ Q b then 1 else 0 := by
  induction L with
  | nil => simp
  | cons x L ih =>
    obtain ⟨hx, hL⟩ := List.nodup_cons.1 hL
    rw [List.countP_cons, ih hL]
    simp only [List.mem_cons]
    by_cases ha : a = x <;> by_cases hb : b = x <;> by_cases hq : Q x <;> grind

/-- **How often a tree is printed**, in terms of the roots: `PrintedOnce` is once. -/
theorem printedOnce_iff (hL : L.Nodup) (h0 : (0 : Int32) ∉ L) {pre post : List (Int32 × Int32)}
    {root : Int32 × Int32} (hr : h.roots = pre ++ root :: post) :
    (L.countP fun p => h.csvTree p = some pre.length) + (if root.1 ∈ L then 0 else 1) = 1 ↔
      PrintedOnce L pre root := by
  have hcount : (L.countP fun p => h.csvTree p = some pre.length) =
      L.countP fun p => (root.1 = p ∨ root.2 = p) ∧ ¬ Taken pre p := by
    refine List.countP_congr fun p hp => ?_
    have hp0 : p ≠ 0 := fun e => h0 (e ▸ hp)
    simpa only [decide_eq_true_eq] using csvTree_eq_some hp0 hr
  rw [hcount, countP_pair hL, PrintedOnce]
  clear hcount
  unfold Selects
  by_cases hab : root.2 = root.1
  · rw [hab]
    split_ifs <;> simp_all
  · by_cases h1 : root.1 ∈ L <;> by_cases h2 : root.2 ∈ L <;> simp [hab, h1, h2]
    split_ifs <;> simp_all

/-! ## The roots a sequence of changes makes -/

/-- The roots made by a sequence of changes: a change that belongs to no process seen
before starts a tree. -/
def rootsOf : List Int32 → List StateChange → List (Int32 × Int32)
  | _, [] => []
  | seen, sc :: scs => newRoots seen sc ++ rootsOf (sc.processId :: seen) scs

theorem addAll_roots (scs : List StateChange) : ∀ {h h' : StateChangeHandler} {bs : List Bool}
    {seen : List Int32}, (∀ p, p ∈ h.pids ↔ p ∈ seen) → addAll sdf h scs = .ok (bs, h') →
      h'.roots = h.roots ++ rootsOf seen scs := by
  induction scs with
  | nil =>
    intro h h' bs seen _ he
    simp only [addAll, Except.ok.injEq, Prod.mk.injEq] at he
    rw [rootsOf, List.append_nil, he.2]
  | cons sc scs ih =>
    intro h h' bs seen hs he
    obtain ⟨h1, m, he1, -, -⟩ := add_records sdf h sc
    obtain ⟨h2, m2, he2, -, -⟩ := addAll_records sdf scs h1
    have hrun : addAll sdf h (sc :: scs) = .ok (true :: List.replicate scs.length true, h2) := by
      simp only [addAll, he1, he2, bind, Except.bind]
    rw [hrun] at he
    simp only [Except.ok.injEq, Prod.mk.injEq] at he
    have hseen : ∀ p, p ∈ h1.pids ↔ p ∈ sc.processId :: seen := by
      intro p
      rw [mem_pids_add he1, List.mem_cons, hs]
    have hnew : newRoots h.pids sc = newRoots seen sc := by
      simp only [newRoots, hs]
    rw [← he.2, ih hseen he2, add_roots he1, rootsOf, hnew, List.append_assoc]

/-- **When the strings and the remainder partition the recorded changes.** The strings print the changes
at their places. For distinct pids other than 0, every change recorded from `events` is in exactly one of
the strings if and only if every root the events make is `PrintedOnce`. -/
theorem csv_partition_iff (sdf : SimpleDateFormat) (events : List StateChange) (hL : L.Nodup)
    (h0 : (0 : Int32) ∉ L) : ∃ h, addAll sdf {} events = .ok (List.replicate events.length true, h) ∧
      (∀ p, getStateChangesCSV sdf h p =
        String.join (((h.csvPlaces p).filterMap h.changeAt).map (StateChange.toCSV sdf))) ∧
      getRemainderStateChangesCSV sdf h L =
        String.join (((h.remainderPlaces L).filterMap h.changeAt).map (StateChange.toCSV sdf)) ∧
      ((∀ c, (h.changeAt c).isSome → h.occurrences L c = 1) ↔
        ∀ pre root post, rootsOf [] events = pre ++ root :: post → PrintedOnce L pre root) := by
  obtain ⟨h, m, he, -, -⟩ := addAll_records sdf events {}
  refine ⟨h, he, getStateChangesCSV_places sdf h, getRemainderStateChangesCSV_places sdf h L, ?_⟩
  have hroots : h.roots = rootsOf [] events := by
    have hseen : ∀ p, p ∈ ({} : StateChangeHandler).pids ↔ p ∈ ([] : List Int32) := by
      simp [pids, nodes, Rose.labelsAll]
    simpa [StateChangeHandler.roots] using addAll_roots events hseen he
  have htree : ∀ {pre root post}, h.roots = pre ++ root :: post →
      ∃ t, h.processTrees[pre.length]? = some t ∧ t.label.ids = root := by
    intro pre root post hr
    have hget : h.roots[pre.length]? = some root := by rw [hr]; simp
    rw [StateChangeHandler.roots, List.getElem?_map, Option.map_eq_some_iff] at hget
    exact hget
  constructor
  · intro hall pre root post hr
    rw [← hroots] at hr
    obtain ⟨t, ht, rfl⟩ := htree hr
    have hc := changeAt_zero ht
    have hone := hall _ hc
    rw [occurrences_eq hc ht] at hone
    exact (printedOnce_iff hL h0 hr).1 hone
  · intro hall c hc
    obtain ⟨sc, hsc⟩ := Option.isSome_iff_exists.1 hc
    obtain ⟨t, ht, -⟩ := Option.bind_eq_some_iff.1 hsc
    have hget : h.roots[c.1]? = some t.label.ids := by
      rw [StateChangeHandler.roots, List.getElem?_map, ht]
      rfl
    obtain ⟨hlt, hget'⟩ := List.getElem?_eq_some_iff.1 hget
    have hsplit : h.roots = h.roots.take c.1 ++ t.label.ids :: h.roots.drop (c.1 + 1) := by
      rw [← hget', List.getElem_cons_drop, List.take_append_drop]
    have hlen : (h.roots.take c.1).length = c.1 := by
      rw [List.length_take]
      exact Nat.min_eq_left hlt.le
    have hone := (printedOnce_iff hL h0 hsplit).2 (hall _ _ _ (hroots.symm.trans hsplit))
    rw [hlen] at hone
    rw [occurrences_eq hc ht]
    exact hone

/-- A process that starts and ends: its two events become two trees with one root id. -/
def exited : List StateChange :=
  [.process ⟨"process", 0, 4, "services.exe", "created", 10, "iexplore.exe"⟩,
    .process ⟨"process", 5, 4, "services.exe", "terminated", 10, "iexplore.exe"⟩]

/-- Neither of the two ids is listed: the remainder has both changes of `exited`. -/
theorem csv_partition_iff_exited : ∃ h, addAll .utc {} exited = .ok ([true, true], h) ∧
    ∀ c, (h.changeAt c).isSome → h.occurrences [20] c = 1 := by
  obtain ⟨h, he, -, -, hiff⟩ := csv_partition_iff .utc exited (List.nodup_singleton (20 : Int32)) (by decide)
  refine ⟨h, he, hiff.2 ?_⟩
  have hroots : rootsOf [] exited = [(10, 4), (10, 4)] := by decide
  rw [hroots]
  rintro (_ | ⟨a, _ | ⟨b, pre⟩⟩) root post hr
  · obtain ⟨rfl, -⟩ := List.cons_eq_cons.1 hr
    decide
  · simp only [List.cons_append, List.nil_append, List.cons.injEq] at hr
    obtain ⟨rfl, rfl, -⟩ := hr
    decide
  · simp at hr

/-- **The strings and the remainder need not partition the changes**: with 10 listed, the
termination of `exited` is printed nowhere; with 4 listed, the creation is printed twice. -/
theorem exited_not_partitioned : ∃ h, addAll .utc {} exited = .ok ([true, true], h) ∧
    (h.changeAt (1, 0)).isSome ∧ h.occurrences [10] (1, 0) = 0 ∧
    (h.changeAt (0, 0)).isSome ∧ h.occurrences [4] (0, 0) = 2 := by
  refine ⟨_, rfl, ?_, ?_, ?_, ?_⟩ <;> decide

end CaptureHPC
