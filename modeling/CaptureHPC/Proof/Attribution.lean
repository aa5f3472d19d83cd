import CaptureHPC.Proof.Conservation

/-!
# Attribution by process ancestry

When every process is created before its children and its object changes, the forest
that `addStateChange` builds one change at a time is the parent relation itself: the
tree of a root process lists the records of the process and of all its descendants, and
no other (`getStateChangesCSV_root`).

An object change of a process that is never created makes the process a root of its
own, with parent 0 (`synthesise`); events without such changes are the special case in
which the second field of `ForeignRoots` says nothing.
-/

namespace CaptureHPC

open Lib ProcessStateChange StateChangeHandler

variable {sdf : SimpleDateFormat} {events : List StateChange}

/-- The process occurs: it is created or changes an object. -/
def Occurs (events : List StateChange) (p : Int32) : Prop := ∃ sc ∈ events, sc.processId = p

/-- The process's creation is among the events. -/
def Created (events : List StateChange) (p : Int32) : Prop :=
  ∃ r, StateChange.process r ∈ events ∧ r.processId = p

/-- `p` is created as a child of `q`. -/
def ChildOf (events : List StateChange) (p q : Int32) : Prop :=
  ∃ r, StateChange.process r ∈ events ∧ r.processId = p ∧ r.parentProcessId = q

/-- `p` is `q` or a descendant of it. -/
def Descends (events : List StateChange) : Int32 → Int32 → Prop :=
  Relation.ReflTransGen (ChildOf events)

/-- A root process: one that occurs and whose parent is not created. -/
def RootProcess (events : List StateChange) (p : Int32) : Prop :=
  Occurs events p ∧ ∀ q, ChildOf events p q → ¬ Created events q

/-- Two events do not create the same process. -/
def Distinct (a b : StateChange) : Prop :=
  ∀ q r, a = .process q → b = .process r → q.processId ≠ r.processId

instance : Std.Symm Distinct := ⟨fun _ _ h q r hq hr => (h r q hr hq).symm⟩

/-- The order of events: the process events are creations, each process is created once,
before its children and before its object changes. -/
structure WellOrdered (events : List StateChange) : Prop where
  created : ∀ r, StateChange.process r ∈ events → r.action = "created"
  distinct : events.Pairwise Distinct
  order : events.Pairwise fun a b => ∀ r, b = .process r → a.key ≠ r.processId
  notSelf : ∀ r, StateChange.process r ∈ events → r.parentProcessId ≠ r.processId

/-- The parents of root processes never occur as processes. -/
structure ForeignRoots (events : List StateChange) : Prop where
  created : ∀ p q, RootProcess events p → ChildOf events p q → ¬ Occurs events q
  uncreated : ∀ p, Occurs events p → ¬ Created events p → ¬ Occurs events 0

theorem childOf_unique (hw : WellOrdered events) {p q q' : Int32} (h : ChildOf events p q)
    (h' : ChildOf events p q') : q = q' := by
  obtain ⟨r, hr, hp, hq⟩ := h
  obtain ⟨r', hr', hp', hq'⟩ := h'
  have hrr : r = r' := by
    by_contra hne
    exact hw.distinct.forall hr hr' (by simpa using hne) r r' rfl rfl (hp.trans hp'.symm)
  rw [← hq, ← hq', hrr]

theorem occurs_of_created {p : Int32} (h : Created events p) : Occurs events p := by
  obtain ⟨r, hr, hp⟩ := h
  exact ⟨_, hr, hp⟩

/-- A root process descends from no other process that occurs. -/
theorem RootProcess.descends (hf : ForeignRoots events) {p q : Int32} (hp : RootProcess events p)
    (hq : Occurs events q) (h : Descends events p q) : p = q := by
  rcases Relation.ReflTransGen.cases_head h with rfl | ⟨c, hpc, hcq⟩
  · rfl
  · exfalso
    have hc : Occurs events c := by
      rcases Relation.ReflTransGen.cases_head hcq with rfl | ⟨d, ⟨r, hr, hrc, -⟩, -⟩
      · exact hq
      · exact ⟨_, hr, hrc⟩
    exact hf.created p c hp hpc hc

/-- A process descends from at most one root. -/
theorem root_unique (hw : WellOrdered events) (hf : ForeignRoots events) {p q q' : Int32}
    (hq : RootProcess events q) (hq' : RootProcess events q') (h : Descends events p q)
    (h' : Descends events p q') : q = q' := by
  have hu : Relator.RightUnique (ChildOf events) := fun _ _ _ h1 h2 => childOf_unique hw h1 h2
  rcases Relation.ReflTransGen.total_of_right_unique hu h h' with hqq | hqq
  · exact hq.descends hf hq'.1 hqq
  · exact (hq'.descends hf hq.1 hqq).symm

/-! ## The forest after a prefix of the events -/

/-- What holds of the forest after the prefix `pre` of the events `pre ++ suf`: it knows
the processes that occurred, each once; its processes are the created ones and those
made up for a process that is never created; no root's parent occurs. -/
structure PrefixOK (pre suf : List StateChange) (h : StateChangeHandler) : Prop where
  forest : ForestOK h
  known : ∀ p, p ∈ h.pids ↔ Occurs pre p
  nodup : h.pids.Nodup
  processes : ∀ r, StateChange.process r ∈ h.records → StateChange.process r ∈ pre ++ suf ∨
    ¬ Created (pre ++ suf) r.processId ∧ Occurs (pre ++ suf) r.processId ∧ r.parentProcessId = 0
  roots : ∀ i ∈ h.roots, ¬ Occurs (pre ++ suf) i.2

theorem prefixOK_empty (events : List StateChange) : PrefixOK [] events {} where
  forest := forestOK_empty
  known p := by simp [pids, nodes, Rose.labelsAll, Occurs]
  nodup := by simp [pids, nodes, Rose.labelsAll]
  processes r hr := by simp [records, nodes, Rose.labelsAll] at hr
  roots i hi := by simp [StateChangeHandler.roots] at hi

/-- A process that has not occurred when its own object change, or a child's creation,
arrives is never created. -/
theorem not_created_of_new {pre suf : List StateChange} {sc : StateChange}
    (hw : WellOrdered (pre ++ sc :: suf)) (hn : ¬ Occurs pre sc.key) :
    ¬ Created (pre ++ sc :: suf) sc.key := by
  rintro ⟨r, hr, hrp⟩
  rcases List.mem_append.1 hr with hr | hr
  · exact hn ⟨_, hr, hrp⟩
  rcases List.mem_cons.1 hr with rfl | hr
  · exact hw.notSelf r (by simp) hrp.symm
  · have hord := (List.pairwise_append.1 hw.order).2.1
    exact (List.pairwise_cons.1 hord).1 _ hr r rfl hrp.symm

/-- A process that is created now has not occurred before. -/
theorem new_of_created {pre suf : List StateChange} {r : ProcessRecord}
    (hw : WellOrdered (pre ++ StateChange.process r :: suf)) : ¬ Occurs pre r.processId := by
  rintro ⟨sc, hsc, hp⟩
  have hord := (List.pairwise_append.1 hw.order).2.2 sc hsc (.process r) List.mem_cons_self r rfl
  have hdist := (List.pairwise_append.1 hw.distinct).2.2 sc hsc (.process r) List.mem_cons_self
  cases sc with
  | object o => exact hord hp
  | process q => exact hdist q r rfl rfl hp

/-- The parent of a tree that an event starts never occurs. -/
theorem ownRoot_foreign {pre suf : List StateChange} {sc : StateChange}
    (hw : WellOrdered (pre ++ sc :: suf)) (hf : ForeignRoots (pre ++ sc :: suf))
    (hn : ¬ Occurs pre sc.key) : ¬ Occurs (pre ++ sc :: suf) (ownRoot sc).2 := by
  have hc := not_created_of_new hw hn
  cases sc with
  | object o => exact hf.uncreated o.processId ⟨.object o, by simp, rfl⟩ hc
  | process r =>
    have hself : ChildOf (pre ++ StateChange.process r :: suf) r.processId r.parentProcessId :=
      ⟨r, by simp, rfl, rfl⟩
    refine hf.created r.processId r.parentProcessId ⟨⟨.process r, by simp, rfl⟩, fun q hq => ?_⟩ hself
    rw [childOf_unique hw hq hself]
    exact hc

/-- **One event keeps the invariant.** -/
theorem prefixOK_add {pre suf : List StateChange} {sc : StateChange} {h h' : StateChangeHandler}
    {b : Bool} (hw : WellOrdered (pre ++ sc :: suf)) (hf : ForeignRoots (pre ++ sc :: suf))
    (ho : PrefixOK pre (sc :: suf) h) (he : addStateChange sdf h sc = .ok (b, h')) :
    PrefixOK (pre ++ [sc]) suf h' := by
  have hlist : pre ++ [sc] ++ suf = pre ++ sc :: suf := by simp
  refine ⟨forestOK_add ho.forest he, fun p => ?_, ?_, ?_, ?_⟩
  · rw [mem_pids_add he, ho.known]
    simp only [Occurs, List.mem_append, List.mem_singleton, or_and_right, exists_or, exists_eq_left]
    exact ⟨fun h => h.symm.imp_right Eq.symm, fun h => h.symm.imp_left Eq.symm⟩
  · rw [(add_pids he).nodup_iff]
    cases sc with
    | process r =>
      have hnew : r.processId ∉ h.pids := fun hp => new_of_created hw ((ho.known _).1 hp)
      exact List.nodup_cons.2 ⟨hnew, ho.nodup⟩
    | object o =>
      rw [newPids]
      split_ifs with hp
      · exact ho.nodup
      · exact List.nodup_cons.2 ⟨hp, ho.nodup⟩
  · rw [hlist]
    obtain ⟨h1, m, he1, hm, hp⟩ := add_records sdf h sc
    rw [he] at he1
    simp only [Except.ok.injEq, Prod.mk.injEq] at he1
    obtain ⟨-, rfl⟩ := he1
    intro r hr
    rcases List.mem_cons.1 (hp.mem_iff.1 hr) with hr | hr
    · exact Or.inl (by simp [hr])
    rcases List.mem_append.1 hr with hr | hr
    · -- a made-up process: its object change found none, so it is never created
      right
      cases sc with
      | process q =>
        rw [homelessOf, List.forall₂_nil_left_iff] at hm
        simp [hm] at hr
      | object o =>
        by_cases hk : o.processId ∈ h.pids
        · rw [homelessOf, if_pos hk, List.forall₂_nil_left_iff] at hm
          simp [hm] at hr
        · rw [homelessOf, if_neg hk] at hm
          obtain ⟨r', hs, rfl⟩ : ∃ r', synthesise sdf o = .ok r' ∧ m = [r'] := by
            rcases hm with _ | ⟨hs, hm⟩
            rw [List.forall₂_nil_left_iff] at hm
            exact ⟨_, hs, by rw [hm]⟩
          obtain ⟨r'', hs', hpid, hppid⟩ := synthesise_ok sdf o
          rw [hs] at hs'
          simp only [Except.ok.injEq] at hs'
          simp only [List.map_cons, List.map_nil, List.mem_singleton, StateChange.process.injEq] at hr
          subst hs' hr
          refine ⟨?_, ?_, hppid⟩
          · rw [hpid]
            exact not_created_of_new hw fun hn => hk ((ho.known _).2 hn)
          · exact ⟨.object o, by simp, hpid.symm⟩
    · exact ho.processes r hr
  · rw [hlist, add_roots he]
    intro i hi
    rcases List.mem_append.1 hi with hi | hi
    · exact ho.roots i hi
    · rw [newRoots] at hi
      split_ifs at hi with hk
      · simp at hi
      · rw [List.mem_singleton.1 hi]
        exact ownRoot_foreign hw hf fun hn => hk ((ho.known _).2 hn)

/-- The invariant after a run of `addAll`. -/
theorem prefixOK_addAll {suf : List StateChange} : ∀ {pre : List StateChange} {h h' : StateChangeHandler}
    {bs : List Bool}, WellOrdered (pre ++ suf) → ForeignRoots (pre ++ suf) → PrefixOK pre suf h →
      addAll sdf h suf = .ok (bs, h') → PrefixOK (pre ++ suf) [] h' := by
  induction suf with
  | nil =>
    intro pre h h' bs _ _ ho he
    simp only [addAll, Except.ok.injEq, Prod.mk.injEq] at he
    rw [List.append_nil, ← he.2]
    exact ho
  | cons sc suf ih =>
    intro pre h h' bs hw hf ho he
    obtain ⟨h1, m, he1, -, -⟩ := add_records sdf h sc
    obtain ⟨h2, m2, he2, -, -⟩ := addAll_records sdf suf h1
    have hrun : addAll sdf h (sc :: suf) = .ok (true :: List.replicate suf.length true, h2) := by
      simp only [addAll, he1, he2, bind, Except.bind]
    rw [hrun] at he
    simp only [Except.ok.injEq, Prod.mk.injEq] at he
    have hlist : pre ++ [sc] ++ suf = pre ++ sc :: suf := by simp
    have hnext := ih (hlist ▸ hw) (hlist ▸ hf) (prefixOK_add hw hf ho he1) he2
    rw [hlist, he.2] at hnext
    exact hnext

/-! ## The forest is the parent relation -/

section Forest

variable {h : StateChangeHandler}

theorem process_mem_records {n : ProcessNode} (hn : n ∈ h.nodes) : StateChange.process n.info ∈ h.records :=
  List.mem_flatMap.2 ⟨n, hn, List.mem_cons_self⟩

theorem pid_mem {n : ProcessNode} (hn : n ∈ h.nodes) : n.info.processId ∈ h.pids :=
  List.mem_map.2 ⟨n, hn, rfl⟩

theorem mem_nodes {t : ProcessStateChange} (ht : t ∈ h.processTrees) {n : ProcessNode}
    (hn : n ∈ t.labels) : n ∈ h.nodes := Rose.mem_labelsAll.2 ⟨t, ht, hn⟩

/-- A node whose parent occurs is a created process. -/
theorem PrefixOK.childOf (hf : ForeignRoots events) (ho : PrefixOK events [] h) {n : ProcessNode}
    (hn : n ∈ h.nodes) {q : Int32} (hq : n.info.parentProcessId = q) (hocc : Occurs events q) :
    ChildOf events n.info.processId q := by
  have hp := ho.processes n.info (process_mem_records hn)
  rw [List.append_nil] at hp
  rcases hp with hp | ⟨hnc, hoc, h0⟩
  · exact ⟨n.info, hp, rfl, hq⟩
  · rw [h0] at hq
    exact absurd (hq ▸ hocc) (hf.uncreated _ hoc hnc)

/-- **Every process of a tree descends from the tree's root.** -/
theorem PrefixOK.descends (hf : ForeignRoots events) (ho : PrefixOK events [] h)
    {t : ProcessStateChange} (ht : t ∈ h.processTrees) {n : ProcessNode} (hn : n ∈ t.labels) :
    Descends events n.info.processId t.processId := by
  have hchain := (ho.forest.edges t ht).chain n hn
  induction hchain using Relation.ReflTransGen.head_induction_on with
  | refl => exact Relation.ReflTransGen.refl
  | head hxy _ ih =>
    obtain ⟨hpar, hy⟩ := hxy
    have hocc := (ho.known _).1 (pid_mem (mem_nodes ht hy))
    exact Relation.ReflTransGen.head (ho.childOf hf (mem_nodes ht hn) hpar hocc) (ih hy)

/-- The root of a tree is a root process. -/
theorem PrefixOK.rootProcess (hw : WellOrdered events) (ho : PrefixOK events [] h)
    {t : ProcessStateChange} (ht : t ∈ h.processTrees) : RootProcess events t.processId := by
  have hn := mem_nodes ht (Rose.label_mem_labels t)
  refine ⟨(ho.known _).1 (pid_mem hn), fun q hq hc => ?_⟩
  have hroot := ho.roots t.label.ids (List.mem_map.2 ⟨t, ht, rfl⟩)
  have hp := ho.processes t.label.info (process_mem_records hn)
  rw [List.append_nil] at hroot hp
  rcases hp with hp | ⟨hnc, -, -⟩
  · have hq' := childOf_unique hw hq ⟨t.label.info, hp, rfl, rfl⟩
    rw [hq'] at hc
    exact hroot (occurs_of_created hc)
  · obtain ⟨r, hr, hrp, -⟩ := hq
    exact hnc ⟨r, hr, hrp⟩

/-- A root process is the root of its tree. -/
theorem PrefixOK.tree_of_root (hf : ForeignRoots events) (ho : PrefixOK events [] h) {r : Int32}
    (hr : RootProcess events r) : ∃ t ∈ h.processTrees, t.processId = r := by
  obtain ⟨n, hn, hnr⟩ := List.mem_map.1 ((ho.known r).2 hr.1)
  obtain ⟨t, ht, hnt⟩ := Rose.mem_labelsAll.1 hn
  have hocc := (ho.known _).1 (pid_mem (mem_nodes ht (Rose.label_mem_labels t)))
  have hd := ho.descends hf ht hnt
  rw [hnr] at hd
  exact ⟨t, ht, (hr.descends hf hocc hd).symm⟩

/-- The tree that `getStateChangesCSV` selects for a root process is the one it is the root of. -/
theorem PrefixOK.selects (sdf : SimpleDateFormat) (hf : ForeignRoots events) (ho : PrefixOK events [] h) {r : Int32}
    (hr : RootProcess events r) : ∃ t ∈ h.processTrees, t.processId = r ∧
      getStateChangesCSV sdf h r = getCSVofTree sdf t := by
  obtain ⟨t, ht, htr⟩ := ho.tree_of_root hf hr
  have hsome : (h.processTrees.find? (accepts r)).isSome := by
    rw [List.find?_isSome]
    exact ⟨t, ht, by simp [accepts, htr]⟩
  obtain ⟨t', ht'⟩ := Option.isSome_iff_exists.1 hsome
  have hmem := List.mem_of_find?_eq_some ht'
  refine ⟨t', hmem, ?_, by rw [getStateChangesCSV, ht']⟩
  have hacc := List.find?_some ht'
  simp only [accepts, Bool.or_eq_true, beq_iff_eq] at hacc
  rcases hacc with hacc | hacc
  · exact hacc
  · -- the parent of a root never occurs, so it is not the root process asked for
    have hroot := ho.roots t'.label.ids (List.mem_map.2 ⟨t', hmem, rfl⟩)
    rw [List.append_nil] at hroot
    have hocc := hr.1
    rw [← hacc] at hocc
    exact absurd hocc hroot

/-- A record belongs to the process of the node that holds it. -/
theorem ForestOK.processId_of_mem (ho : ForestOK h) {n : ProcessNode} (hn : n ∈ h.nodes)
    {sc : StateChange} (hsc : sc ∈ n.records) : sc.processId = n.info.processId := by
  rcases List.mem_cons.1 hsc with rfl | hsc
  · rfl
  · obtain ⟨o, hob, rfl⟩ := List.mem_map.1 hsc
    exact ho.objects n hn o hob

open Classical in
/-- **The records of a root's tree** are the stored records of its descendants. -/
theorem PrefixOK.tree_records (hw : WellOrdered events) (hf : ForeignRoots events)
    (ho : PrefixOK events [] h) {t : ProcessStateChange} (ht : t ∈ h.processTrees) :
    (t.labels.flatMap ProcessNode.records).Perm
      (h.records.filter fun sc => Descends events sc.processId t.processId) := by
  obtain ⟨l, r, hlr⟩ := List.append_of_mem ht
  have hin : (t.labels.flatMap ProcessNode.records).filter
      (fun sc => Descends events sc.processId t.processId) = t.labels.flatMap ProcessNode.records := by
    rw [List.filter_eq_self]
    intro sc hsc
    obtain ⟨n, hn, hsc⟩ := List.mem_flatMap.1 hsc
    rw [ho.forest.processId_of_mem (mem_nodes ht hn) hsc]
    simpa using ho.descends hf ht hn
  -- the processes of another tree descend from its own root, which is another one
  have hout : ∀ s ∈ h.processTrees, s.processId ≠ t.processId →
      (s.labels.flatMap ProcessNode.records).filter
        (fun sc => Descends events sc.processId t.processId) = [] := by
    intro s hs hne
    rw [List.filter_eq_nil_iff]
    intro sc hsc
    obtain ⟨n, hn, hsc⟩ := List.mem_flatMap.1 hsc
    rw [ho.forest.processId_of_mem (mem_nodes hs hn) hsc]
    intro hd
    simp only [decide_eq_true_eq] at hd
    exact hne (root_unique hw hf (ho.rootProcess hw hs) (ho.rootProcess hw ht) (ho.descends hf hs hn) hd)
  have hnodup := ho.nodup
  rw [pids, nodes, hlr, Rose.labelsAll_eq, List.flatMap_append, List.flatMap_cons, List.map_append,
    List.map_append, List.nodup_append, List.nodup_append] at hnodup
  obtain ⟨-, ⟨-, -, hdr⟩, hdl⟩ := hnodup
  have hroot : t.processId ∈ t.labels.map fun n => n.info.processId :=
    List.mem_map.2 ⟨_, Rose.label_mem_labels t, rfl⟩
  have hpid : ∀ (ts : List ProcessStateChange), ∀ s ∈ ts,
      s.processId ∈ (ts.flatMap Rose.labels).map fun n => n.info.processId := fun ts s hs =>
    List.mem_map.2 ⟨_, List.mem_flatMap.2 ⟨s, hs, Rose.label_mem_labels s⟩, rfl⟩
  have hl : (l.flatMap fun s => (s.labels.flatMap ProcessNode.records).filter
      fun sc => Descends events sc.processId t.processId) = [] := by
    rw [List.flatMap_eq_nil_iff]
    intro s hs
    exact hout s (by rw [hlr]; simp [hs])
      (hdl _ (hpid l s hs) _ (List.mem_append_left _ hroot))
  have hr : (r.flatMap fun s => (s.labels.flatMap ProcessNode.records).filter
      fun sc => Descends events sc.processId t.processId) = [] := by
    rw [List.flatMap_eq_nil_iff]
    intro s hs
    exact hout s (by rw [hlr]; simp [hs]) (hdr _ hroot _ (hpid r s hs)).symm
  rw [records, nodes, hlr, Rose.labelsAll_eq, List.flatMap_assoc, List.filter_flatMap,
    List.flatMap_append, List.flatMap_cons, hl, hr, hin, List.nil_append, List.append_nil]

end Forest

open Classical in
/-- **Attribution by process ancestry.** For a root process `r`, `getStateChangesCSV`
prints exactly the records of `r` and its descendants, each once, and none that belongs
to another root. -/
theorem getStateChangesCSV_root (sdf : SimpleDateFormat) (hw : WellOrdered events)
    (hf : ForeignRoots events) : ∃ h made,
    addAll sdf {} events = .ok (List.replicate events.length true, h) ∧
      List.Forall₂ (fun o r => synthesise sdf o = .ok r) (homeless sdf {} events) made ∧
      ∀ r, RootProcess events r → ∃ L : List StateChange,
        getStateChangesCSV sdf h r = String.join (L.map (StateChange.toCSV sdf)) ∧
        L.Perm ((events ++ made.map StateChange.process).filter
          fun sc => Descends events sc.processId r) ∧
        ∀ sc ∈ L, ∀ r', RootProcess events r' → Descends events sc.processId r' → r' = r := by
  obtain ⟨h, m, he, hm, hp⟩ := addAll_records sdf events {}
  have ho : PrefixOK ([] ++ events) [] h := prefixOK_addAll hw hf (prefixOK_empty events) he
  rw [List.nil_append] at ho
  refine ⟨h, m, he, hm, fun r hr => ?_⟩
  obtain ⟨t, ht, rfl, hcsv⟩ := ho.selects sdf hf hr
  have hL : t.getAllStateChanges.Perm ((events ++ m.map StateChange.process).filter
      fun sc => Descends events sc.processId t.processId) := by
    refine ((getAllStateChanges_perm t).trans (ho.tree_records hw hf ht)).trans (List.Perm.filter _ ?_)
    simpa [records, nodes, Rose.labelsAll] using hp
  refine ⟨t.getAllStateChanges, hcsv, hL, fun sc hsc r' hr' hd => ?_⟩
  have hd' := List.of_mem_filter (hL.mem_iff.1 hsc)
  exact root_unique hw hf hr' hr hd (by simpa using hd')

/-- Two roots with one parent, the events of their trees interleaved. -/
def twoRoots : List StateChange :=
  [.process ⟨"process", 0, 4, "services.exe", "created", 10, "iexplore.exe"⟩,
    .process ⟨"process", 0, 4, "services.exe", "created", 20, "firefox.exe"⟩,
    .process ⟨"process", 1, 10, "iexplore.exe", "created", 11, "cmd.exe"⟩,
    .object ⟨"file", 2, 11, "cmd.exe", "Write", "evil.exe", ""⟩,
    .object ⟨"file", 2, 20, "firefox.exe", "Write", "cache.db", ""⟩]

theorem wellOrdered_twoRoots : WellOrdered twoRoots := by
  refine ⟨?_, ?_, ?_, ?_⟩ <;> simp [twoRoots, Distinct, StateChange.key]

theorem foreignRoots_twoRoots : ForeignRoots twoRoots := by
  refine ⟨fun p q hp hc => ?_, fun p hp hn => ?_⟩
  · obtain ⟨r, hr, rfl, rfl⟩ := hc
    simp only [twoRoots, List.mem_cons, StateChange.process.injEq, reduceCtorEq, List.not_mem_nil,
      or_false] at hr
    rcases hr with rfl | rfl | rfl
    · unfold Occurs; decide
    · unfold Occurs; decide
    · exact absurd ⟨_, List.mem_cons_self, rfl⟩ (hp.2 10 ⟨_, by simp [twoRoots], rfl, rfl⟩)
  · unfold Occurs; decide

theorem rootProcess_twoRoots : RootProcess twoRoots 10 := by
  refine ⟨⟨_, List.mem_cons_self, rfl⟩, ?_⟩
  rintro q ⟨r, hr, hp, rfl⟩ hc
  have hocc := occurs_of_created hc
  revert hp hocc
  simp only [twoRoots, List.mem_cons, StateChange.process.injEq, reduceCtorEq, List.not_mem_nil,
    or_false] at hr
  unfold Occurs
  rcases hr with rfl | rfl | rfl <;> decide

open Classical in
/-- The root 10 of `twoRoots` gets its own records and those of its child 11. -/
theorem getStateChangesCSV_root_twoRoots : ∃ (h : StateChangeHandler) (made : List ProcessRecord)
    (L : List StateChange), addAll .utc {} twoRoots = .ok (List.replicate 5 true, h) ∧
      getStateChangesCSV .utc h 10 = String.join (L.map (StateChange.toCSV .utc)) ∧
      L.Perm ((twoRoots ++ made.map StateChange.process).filter
        fun sc => Descends twoRoots sc.processId 10) := by
  obtain ⟨h, made, he, -, hr⟩ := getStateChangesCSV_root .utc wellOrdered_twoRoots foreignRoots_twoRoots
  obtain ⟨L, hcsv, hL, -⟩ := hr 10 rootProcess_twoRoots
  exact ⟨h, made, L, he, hcsv, hL⟩

end CaptureHPC
