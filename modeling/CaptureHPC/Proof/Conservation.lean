import CaptureHPC.Proof.Forest

/-!
# No state change is lost

`addAll_conserves`: however changes are added to an empty handler, the trees together
hold exactly the added changes and one made-up process for each object change that
found none, and every tree lists its changes in order of time.
-/

namespace CaptureHPC

open Lib ProcessStateChange StateChangeHandler

variable {sdf : SimpleDateFormat}

theorem getAllOfChildren_eq (ts : List ProcessStateChange) :
    getAllOfChildren ts = ts.flatMap getAllStateChanges := by
  induction ts with
  | nil => rfl
  | cons t ts ih => rw [getAllOfChildren, ih, List.flatMap_cons]

theorem getAllStateChanges_node (n : ProcessNode) (ts : List ProcessStateChange) :
    getAllStateChanges (.node n ts) = (n.stateChanges.map StateChange.object ++
      ts.flatMap getAllStateChanges ++ [StateChange.process n.info]).insertionSort StateChange.le := by
  rw [getAllStateChanges, getAllOfChildren_eq]

/-- A tree lists exactly the records its nodes store. -/
theorem getAllStateChanges_perm (t : ProcessStateChange) :
    t.getAllStateChanges.Perm (t.labels.flatMap ProcessNode.records) := by
  induction t using Rose.induct with
  | h n ts ih =>
    have hts : (ts.flatMap getAllStateChanges).Perm
        ((ts.flatMap Rose.labels).flatMap ProcessNode.records) := by
      rw [List.flatMap_assoc]
      exact List.Perm.flatMap_left _ ih
    rw [getAllStateChanges_node, Rose.labels_node, Rose.labelsAll_eq, List.flatMap_cons]
    refine (List.perm_insertionSort _ _).trans ?_
    refine List.perm_append_comm.trans ?_
    exact List.Perm.cons _ (hts.append_left (n.stateChanges.map StateChange.object))

theorem StateChange.le_or_ge (a b : StateChange) : a.le b ∨ b.le a := by
  unfold StateChange.le
  rcases lt_trichotomy a.time b.time with h | h | h
  · exact Or.inl (Or.inl h)
  · rcases le_total (utf16 a.type) (utf16 b.type) with h' | h'
    · exact Or.inr (Or.inr ⟨h.symm, h'⟩)
    · exact Or.inl (Or.inr ⟨h, h'⟩)
  · exact Or.inr (Or.inl h)

theorem StateChange.le.trans {a b c : StateChange} (h1 : a.le b) (h2 : b.le c) : a.le c := by
  unfold StateChange.le at *
  rcases h1 with h1 | ⟨h1, h1'⟩ <;> rcases h2 with h2 | ⟨h2, h2'⟩
  · exact Or.inl (by omega)
  · exact Or.inl (by omega)
  · exact Or.inl (by omega)
  · exact Or.inr ⟨by omega, h2'.trans h1'⟩

instance : Std.Total StateChange.le := ⟨StateChange.le_or_ge⟩

instance : IsTrans StateChange StateChange.le := ⟨fun _ _ _ => StateChange.le.trans⟩

/-- **A tree lists its changes in order of time.** -/
theorem getAllStateChanges_sorted (t : ProcessStateChange) :
    (t.getAllStateChanges.map StateChange.time).Pairwise (· ≤ ·) := by
  cases t with
  | node n ts =>
    rw [getAllStateChanges_node, List.pairwise_map]
    refine (List.pairwise_insertionSort StateChange.le _).imp fun h => ?_
    rcases h with h | h
    · exact h.le
    · exact h.1.le

theorem handler_records_perm (h : StateChangeHandler) :
    (h.processTrees.flatMap getAllStateChanges).Perm h.records := by
  rw [records, nodes, Rose.labelsAll_eq, List.flatMap_assoc]
  exact List.Perm.flatMap_left _ fun t _ => getAllStateChanges_perm t

/-- The object changes that found no process in any tree when they were added. -/
def homeless (sdf : SimpleDateFormat) : StateChangeHandler → List StateChange → List ObjectStateChange
  | _, [] => []
  | h, sc :: scs =>
    homelessOf h sc ++
      match addStateChange sdf h sc with
      | .ok (_, h') => homeless sdf h' scs
      | .error _ => []

/-- What a run of `addAll` from any handler stores. -/
theorem addAll_records (sdf : SimpleDateFormat) (scs : List StateChange) : ∀ h : StateChangeHandler, ∃ h' m,
    addAll sdf h scs = .ok (List.replicate scs.length true, h') ∧
      List.Forall₂ (fun o r => synthesise sdf o = .ok r) (homeless sdf h scs) m ∧
      h'.records.Perm (scs ++ (m.map StateChange.process ++ h.records)) := by
  induction scs with
  | nil => intro h; exact ⟨h, [], rfl, List.Forall₂.nil, List.Perm.refl _⟩
  | cons sc scs ih =>
    intro h
    obtain ⟨h1, m1, he1, hm1, hp1⟩ := add_records sdf h sc
    obtain ⟨h2, m2, he2, hm2, hp2⟩ := ih h1
    refine ⟨h2, m1 ++ m2, ?_, ?_, ?_⟩
    · simp only [addAll, he1, he2, bind, Except.bind]
      rfl
    · simp only [homeless, he1]
      exact List.rel_append hm1 hm2
    · refine hp2.trans ?_
      rw [List.map_append]
      have hmid : (m2.map StateChange.process ++ h1.records).Perm
          (sc :: ((m1.map StateChange.process ++ m2.map StateChange.process) ++ h.records)) := by
        refine (hp1.append_left _).trans ?_
        refine List.perm_middle.trans (List.Perm.cons _ ?_)
        rw [List.append_assoc]
        exact List.perm_append_comm_assoc _ _ _
      exact (hmid.append_left _).trans List.perm_middle

/-- **State-change conservation.** Every call returns `true`; the trees together list the
added changes and exactly one made-up process for each object change that found none;
each tree is in order of time. -/
theorem addAll_conserves (sdf : SimpleDateFormat) (scs : List StateChange) : ∃ h made,
    addAll sdf {} scs = .ok (List.replicate scs.length true, h) ∧
      List.Forall₂ (fun o r => synthesise sdf o = .ok r) (homeless sdf {} scs) made ∧
      (h.processTrees.flatMap getAllStateChanges).Perm (scs ++ made.map StateChange.process) ∧
      ∀ t ∈ h.processTrees, (t.getAllStateChanges.map StateChange.time).Pairwise (· ≤ ·) := by
  obtain ⟨h, m, he, hm, hp⟩ := addAll_records sdf scs {}
  refine ⟨h, m, he, hm, (handler_records_perm h).trans ?_, fun t _ => getAllStateChanges_sorted t⟩
  simpa [records, nodes, Rose.labelsAll] using hp

end CaptureHPC
