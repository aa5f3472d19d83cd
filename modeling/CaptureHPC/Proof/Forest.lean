import CaptureHPC.Spec.StateChange

/-!
# The process forest

What one `addStateChange` does, said once (`addStateChange_cases`): the change goes to
the first node, in preorder, of the process it belongs to, and when there is none it
becomes a tree of its own. From it follow what the forest stores (`add_records`), which
processes it knows (`add_pids`), which roots it has (`add_roots`) and that the tree's
edges follow the parent ids (`ForestOK`).
-/

namespace CaptureHPC

open Lib StateChangeHandler
open ProcessStateChange hiding addStateChange

variable {sdf : SimpleDateFormat}

/-- The process a change belongs to: its own for an object, the parent for a process. -/
def StateChange.key : StateChange → Int32
  | .process r => r.parentProcessId
  | .object o => o.processId

/-- The id and parent id of a node's process. -/
def ProcessNode.ids (n : ProcessNode) : Int32 × Int32 := (n.info.processId, n.info.parentProcessId)

/-- The records a node stores: its process and the process's object changes. -/
def ProcessNode.records (n : ProcessNode) : List StateChange :=
  .process n.info :: n.stateChanges.map .object

namespace StateChangeHandler

/-- The nodes of all trees, in preorder. -/
def nodes (h : StateChangeHandler) : List ProcessNode := Rose.labelsAll h.processTrees

/-- All stored records. -/
def records (h : StateChangeHandler) : List StateChange := h.nodes.flatMap ProcessNode.records

/-- The ids of all processes in the trees. -/
def pids (h : StateChangeHandler) : List Int32 := h.nodes.map fun n => n.info.processId

/-- The id and parent id of each root. -/
def roots (h : StateChangeHandler) : List (Int32 × Int32) := h.processTrees.map fun t => t.label.ids

end StateChangeHandler

theorem belongs_iff {sc : StateChange} {n : ProcessNode} :
    belongs sc n = true ↔ n.info.processId = sc.key := by
  cases sc <;> simp only [belongs, StateChange.key, beq_iff_eq] <;> exact eq_comm

theorem attach_ids (sc : StateChange) (n : ProcessNode) (ts : List ProcessStateChange) :
    (attach sc n ts).label.ids = n.ids := by
  cases sc <;> rfl

/-- The node made for a change that goes under an existing one. -/
theorem attach_records (sc : StateChange) (n : ProcessNode) (ts : List ProcessStateChange) :
    ((attach sc n ts).labels.flatMap ProcessNode.records).Perm
      ([sc] ++ (Rose.node n ts).labels.flatMap ProcessNode.records) := by
  cases sc with
  | object o =>
    simp only [attach, Rose.labels_node, List.flatMap_cons, ProcessNode.records, List.map_append,
      List.map_cons, List.map_nil, ← List.append_assoc]
    refine List.Perm.append_right _ ?_
    have hperm : (StateChange.process n.info :: n.stateChanges.map StateChange.object ++
        [StateChange.object o]).Perm ([StateChange.object o] ++
          StateChange.process n.info :: n.stateChanges.map StateChange.object) :=
      List.perm_append_comm
    simpa using hperm
  | process r =>
    simp only [attach, leaf, Rose.labels_node, Rose.labelsAll_eq, List.flatMap_cons,
      List.flatMap_append, List.flatMap_nil, List.append_nil]
    rw [← List.append_assoc]
    exact List.perm_append_comm

/-- `synthesise` never fails, since a printed time can be read back. -/
theorem synthesise_ok (sdf : SimpleDateFormat) (o : ObjectStateChange) : ∃ r, synthesise sdf o = .ok r ∧
    r.processId = o.processId ∧ r.parentProcessId = 0 := by
  obtain ⟨t, ht⟩ := Option.isSome_iff_exists.1 (sdf.parse_format o.time)
  have h0 : parseInt (some "0") = some 0 := by decide
  refine ⟨⟨"process", t, 0, "CaptureClient.exe", "created", o.processId, o.process⟩, ?_, rfl, rfl⟩
  simp [synthesise, ProcessRecord.new, setTime, ht, h0, parseInt_intToString, orNull, bind, Except.bind]

/-- **What one `addStateChange` does.** Either the change's process is known and the
change is attached to its node, or the change starts a tree. -/
theorem addStateChange_cases (sdf : SimpleDateFormat) (h : StateChangeHandler) (sc : StateChange) :
    (sc.key ∈ h.pids ∧ ∃ ts, Rose.modifyFirstAll (belongs sc) (attach sc) h.processTrees = some ts ∧
      addStateChange sdf h sc = .ok (true, ⟨ts⟩)) ∨
    (sc.key ∉ h.pids ∧ ∃ t, addStateChange sdf h sc = .ok (true, ⟨h.processTrees ++ [t]⟩) ∧
      ((∃ r, sc = .process r ∧ t = leaf r) ∨
        ∃ o r, sc = .object o ∧ synthesise sdf o = .ok r ∧ r.processId = o.processId ∧
          r.parentProcessId = 0 ∧ t = .node { info := r, stateChanges := [o] } [])) := by
  have hkey : sc.key ∈ h.pids ↔ ∃ n ∈ h.nodes, belongs sc n = true := by
    simp only [pids, List.mem_map, belongs_iff]
  cases hm : Rose.modifyFirstAll (belongs sc) (attach sc) h.processTrees with
  | some ts =>
    left
    refine ⟨?_, ts, rfl, by simp [addStateChange, hm]⟩
    rw [hkey]
    by_contra hno
    have hall : ∀ n ∈ Rose.labelsAll h.processTrees, belongs sc n = false := by
      intro n hn
      by_contra hb
      exact hno ⟨n, hn, by simpa using hb⟩
    rw [(Rose.modifyFirstAll_eq_none _).2 hall] at hm
    exact absurd hm (by simp)
  | none =>
    right
    have hall := (Rose.modifyFirstAll_eq_none _).1 hm
    refine ⟨fun hk => ?_, ?_⟩
    · obtain ⟨n, hn, hb⟩ := hkey.1 hk
      rw [hall n hn] at hb
      exact absurd hb (by simp)
    cases sc with
    | process r => exact ⟨leaf r, by simp [addStateChange, hm], Or.inl ⟨r, rfl, rfl⟩⟩
    | object o =>
      obtain ⟨r, hr, hp, hpp⟩ := synthesise_ok sdf o
      have ht : ProcessStateChange.addStateChange (.object o) (leaf r) =
          some (.node { info := r, stateChanges := [o] } []) := by
        rw [ProcessStateChange.addStateChange, leaf, Rose.modifyFirst_node,
          if_pos (belongs_iff.2 (by simpa [StateChange.key] using hp))]
        rfl
      refine ⟨_, ?_, Or.inr ⟨o, r, rfl, hr, hp, hpp, rfl⟩⟩
      simp only [addStateChange, hm, hr, bind, Except.bind, ht]

/-! ## One step -/

/-- The object change that finds no process in any tree, if `sc` is one. -/
def homelessOf (h : StateChangeHandler) : StateChange → List ObjectStateChange
  | .process _ => []
  | .object o => if o.processId ∈ h.pids then [] else [o]

/-- The ids that become known with `sc`. -/
def newPids (known : List Int32) : StateChange → List Int32
  | .process r => [r.processId]
  | .object o => if o.processId ∈ known then [] else [o.processId]

/-- The id and parent id of the tree that `sc` becomes when it belongs to no process. -/
def ownRoot : StateChange → Int32 × Int32
  | .process r => (r.processId, r.parentProcessId)
  | .object o => (o.processId, 0)

/-- The roots that `sc` adds. -/
def newRoots (known : List Int32) (sc : StateChange) : List (Int32 × Int32) :=
  if sc.key ∈ known then [] else [ownRoot sc]

theorem nodes_append (ts : List ProcessStateChange) (t : ProcessStateChange) :
    (⟨ts ++ [t]⟩ : StateChangeHandler).nodes = Rose.labelsAll ts ++ t.labels := by
  simp [nodes, Rose.labelsAll_eq]

/-- **The records after a step**: the new change, the process made up for it, the old ones. -/
theorem add_records (sdf : SimpleDateFormat) (h : StateChangeHandler) (sc : StateChange) :
    ∃ h' m, addStateChange sdf h sc = .ok (true, h') ∧
      List.Forall₂ (fun o r => synthesise sdf o = .ok r) (homelessOf h sc) m ∧
      h'.records.Perm (sc :: (m.map StateChange.process ++ h.records)) := by
  rcases addStateChange_cases sdf h sc with ⟨hk, ts, hts, he⟩ | ⟨hk, t, he, hsc⟩
  · refine ⟨_, [], he, ?_, ?_⟩
    · cases sc with
      | process r => exact List.Forall₂.nil
      | object o =>
        have hk' : o.processId ∈ h.pids := hk
        rw [homelessOf, if_pos hk']; exact List.Forall₂.nil
    · exact Rose.modifyFirstAll_perm (fun a ts _ => attach_records sc a ts) hts
  · rcases hsc with ⟨r, rfl, rfl⟩ | ⟨o, r, rfl, hr, hp, -, rfl⟩
    · refine ⟨_, [], he, List.Forall₂.nil, ?_⟩
      simp only [records, nodes_append, List.flatMap_append]
      exact List.perm_append_comm
    · refine ⟨_, [r], he, ?_, ?_⟩
      · have hk' : o.processId ∉ h.pids := hk
        rw [homelessOf, if_neg hk']; exact List.Forall₂.cons hr List.Forall₂.nil
      · simp only [records, nodes_append, List.flatMap_append]
        refine List.perm_append_comm.trans ?_
        exact List.Perm.swap _ _ _

/-- **The known processes after a step.** -/
theorem add_pids {h h' : StateChangeHandler} {sc : StateChange} {b : Bool}
    (he : addStateChange sdf h sc = .ok (b, h')) : h'.pids.Perm (newPids h.pids sc ++ h.pids) := by
  rcases addStateChange_cases sdf h sc with ⟨hk, ts, hts, he'⟩ | ⟨hk, t, he', hsc⟩
  · rw [he'] at he
    simp only [Except.ok.injEq, Prod.mk.injEq] at he
    obtain ⟨-, rfl⟩ := he
    have hval : ∀ g : StateChangeHandler, g.pids = g.nodes.flatMap fun n => [n.info.processId] :=
      fun g => List.map_eq_flatMap
    rw [hval ⟨ts⟩]
    conv_rhs => rw [hval h]
    refine Rose.modifyFirstAll_perm (fun a us _ => ?_) hts
    cases sc with
    | object o =>
      have hk' : o.processId ∈ h.pids := hk
      rw [newPids, ← hval, if_pos hk']
      simp [attach, Rose.labels_node]
    | process r =>
      simp only [newPids, attach, leaf, Rose.labels_node, Rose.labelsAll_eq, List.flatMap_cons,
        List.flatMap_append, List.flatMap_nil, List.append_nil]
      rw [← List.append_assoc]
      exact List.perm_append_comm
  · rw [he'] at he
    simp only [Except.ok.injEq, Prod.mk.injEq] at he
    obtain ⟨-, rfl⟩ := he
    simp only [pids, nodes_append, List.map_append]
    refine List.perm_append_comm.trans (List.Perm.append_right _ (List.Perm.of_eq ?_))
    rcases hsc with ⟨r, rfl, rfl⟩ | ⟨o, r, rfl, -, hp, -, rfl⟩
    · rfl
    · have hk' : o.processId ∉ h.pids := hk
      have hn : newPids h.pids (.object o) = [o.processId] := if_neg hk'
      refine Eq.trans ?_ hn.symm
      simpa [Rose.labels_node, Rose.labelsAll] using hp

theorem mem_pids_add {h h' : StateChangeHandler} {sc : StateChange} {b : Bool}
    (he : addStateChange sdf h sc = .ok (b, h')) (p : Int32) :
    p ∈ h'.pids ↔ p = sc.processId ∨ p ∈ h.pids := by
  rw [(add_pids he).mem_iff, List.mem_append]
  cases sc with
  | process r => simp [newPids, StateChange.processId]
  | object o =>
    simp only [newPids, StateChange.processId]
    split_ifs with ho
    · simp only [List.not_mem_nil, false_or]
      exact ⟨Or.inr, fun hp => hp.elim (fun e => e ▸ ho) id⟩
    · simp

/-- **The roots after a step.** -/
theorem add_roots {h h' : StateChangeHandler} {sc : StateChange} {b : Bool}
    (he : addStateChange sdf h sc = .ok (b, h')) : h'.roots = h.roots ++ newRoots h.pids sc := by
  rcases addStateChange_cases sdf h sc with ⟨hk, ts, hts, he'⟩ | ⟨hk, t, he', hsc⟩
  · rw [he'] at he
    simp only [Except.ok.injEq, Prod.mk.injEq] at he
    obtain ⟨-, rfl⟩ := he
    rw [newRoots, if_pos hk, List.append_nil]
    exact Rose.modifyFirstAll_label (fun a us _ => attach_ids sc a us) hts
  · rw [he'] at he
    simp only [Except.ok.injEq, Prod.mk.injEq] at he
    obtain ⟨-, rfl⟩ := he
    rw [newRoots, if_neg hk]
    simp only [roots, List.map_append, List.map_cons, List.map_nil]
    rcases hsc with ⟨r, rfl, rfl⟩ | ⟨o, r, rfl, -, hp, hpp, rfl⟩
    · rfl
    · simp [Rose.label, ProcessNode.ids, ownRoot, hp, hpp]

/-- Edges follow the parent ids, and a node holds the changes of its own process. -/
structure ForestOK (h : StateChangeHandler) : Prop where
  edges : ∀ t ∈ h.processTrees, Rose.Edges (fun a b => b.ids.2 = a.ids.1) t
  objects : ∀ n ∈ h.nodes, ∀ o ∈ n.stateChanges, o.processId = n.info.processId

theorem forestOK_empty : ForestOK {} := ⟨by simp, by simp [nodes, Rose.labelsAll]⟩

/-- A step keeps the forest well formed. -/
theorem forestOK_add {h h' : StateChangeHandler} {sc : StateChange} {b : Bool} (hf : ForestOK h)
    (he : addStateChange sdf h sc = .ok (b, h')) : ForestOK h' := by
  rcases addStateChange_cases sdf h sc with ⟨hk, ts, hts, he'⟩ | ⟨hk, t, he', hsc⟩
  · rw [he'] at he
    simp only [Except.ok.injEq, Prod.mk.injEq] at he
    obtain ⟨-, rfl⟩ := he
    obtain ⟨l, x, x', r, hl, rfl, hx⟩ := Rose.modifyFirstAll_split hts
    have hxe := hf.edges x (by rw [hl]; simp)
    have hedge : Rose.Edges (fun a b => b.ids.2 = a.ids.1) x' := by
      refine Rose.modifyFirst_edges (S := fun i j => j.2 = i.1) (fun a us _ => attach_ids sc a us) ?_ hx hxe
      intro a us ha hn
      have ha' := belongs_iff.1 ha
      rw [Rose.edges_node] at hn
      cases sc with
      | object o => exact Rose.edges_node.2 hn
      | process q =>
        refine Rose.edges_node.2 ⟨fun y hy => ?_, fun y hy => ?_⟩
        · rcases List.mem_append.1 hy with hy | hy
          · exact hn.1 y hy
          · rw [List.mem_singleton.1 hy]; exact ha'.symm
        · rcases List.mem_append.1 hy with hy | hy
          · exact hn.2 y hy
          · rw [List.mem_singleton.1 hy]; exact .node (by simp) (by simp)
    have hobj : ∀ n ∈ x'.labels, ∀ o ∈ n.stateChanges, o.processId = n.info.processId := by
      refine Rose.modifyFirst_forall ?_ hx fun n hn => hf.objects n ?_
      · intro a us ha hall n hn
        have ha' := belongs_iff.1 ha
        cases sc with
        | object o =>
          rw [attach, Rose.labels_node, List.mem_cons] at hn
          rcases hn with rfl | hn
          · intro o' ho'
            rcases List.mem_append.1 ho' with ho' | ho'
            · exact hall a (by rw [Rose.labels_node]; exact List.mem_cons_self) o' ho'
            · rw [List.mem_singleton.1 ho']; exact ha'.symm
          · exact hall n (by rw [Rose.labels_node]; exact List.mem_cons_of_mem _ hn)
        | process q =>
          simp only [attach, Rose.labels_node, Rose.labelsAll_eq, List.flatMap_append, List.mem_cons,
            List.mem_append, List.flatMap_cons, List.flatMap_nil, List.append_nil] at hn
          rcases hn with rfl | hn | hn
          · exact hall n (by rw [Rose.labels_node]; exact List.mem_cons_self)
          · exact hall n (by rw [Rose.labels_node, Rose.labelsAll_eq]; exact List.mem_cons_of_mem _ hn)
          · simp only [leaf, Rose.labels_node, Rose.labelsAll, List.mem_singleton] at hn
            rw [hn]; simp
      · rw [nodes, hl, Rose.labelsAll_eq]; simp [hn]
    constructor
    · intro y hy
      rcases List.mem_append.1 hy with hy | hy
      · exact hf.edges y (by rw [hl]; simp [hy])
      · rcases List.mem_cons.1 hy with rfl | hy
        · exact hedge
        · exact hf.edges y (by rw [hl]; simp [hy])
    · intro n hn
      obtain ⟨y, hy, hny⟩ := Rose.mem_labelsAll.1 hn
      have hold : y ∈ h.processTrees → ∀ o ∈ n.stateChanges, o.processId = n.info.processId :=
        fun hy' => hf.objects n (Rose.mem_labelsAll.2 ⟨y, hy', hny⟩)
      rcases List.mem_append.1 hy with hy | hy
      · exact hold (by rw [hl]; simp [hy])
      · rcases List.mem_cons.1 hy with rfl | hy
        · exact hobj n hny
        · exact hold (by rw [hl]; simp [hy])
  · rw [he'] at he
    simp only [Except.ok.injEq, Prod.mk.injEq] at he
    obtain ⟨-, rfl⟩ := he
    have ht : Rose.Edges (fun a b => b.ids.2 = a.ids.1) t ∧
        ∀ n ∈ t.labels, ∀ o ∈ n.stateChanges, o.processId = n.info.processId := by
      rcases hsc with ⟨r, rfl, rfl⟩ | ⟨o, r, rfl, -, hp, -, rfl⟩
      · exact ⟨.node (by simp) (by simp), by simp [leaf, Rose.labels_node, Rose.labelsAll]⟩
      · exact ⟨.node (by simp) (by simp), by simp [Rose.labels_node, Rose.labelsAll, hp]⟩
    constructor
    · intro y hy
      rcases List.mem_append.1 hy with hy | hy
      · exact hf.edges y hy
      · rw [List.mem_singleton.1 hy]; exact ht.1
    · intro n hn
      rw [nodes_append, List.mem_append] at hn
      exact hn.elim (hf.objects n) (ht.2 n)

end CaptureHPC
