import CaptureHPC.Lib.StableSort
import CaptureHPC.Proof.Conservation

/-!
# When a process is listed before its own changes

`getAllStateChanges` sorts by time and, at one time, by descending type. A process stands
at the end of the list that is sorted, behind its object changes, so an object change of
the same time stays in front of it unless its type is the smaller one (`Tied`). That is so
for a file (`"file" < "process"`) and not for a registry key (`"process" < "registry"`).

* `listed_first_iff`: in one tree, the processes come first exactly when no node holds a
  tied change.
* `attributed_addAll`: the pairs of process record and object change in the trees are
  those made when the object changes were added.
* `processes_first_iff`: both together, for every handler that is built by adding changes.
-/

namespace CaptureHPC

open Lib StateChangeHandler
open ProcessStateChange hiding addStateChange

variable {sdf : SimpleDateFormat}

/-- The change has the time of its process's record, and its type does not sort below the
record's type. -/
def Tied (r : ProcessRecord) (o : ObjectStateChange) : Prop :=
  o.time = r.time ∧ utf16 r.type ≤ utf16 o.type

instance : DecidableRel Tied := fun r o => by unfold Tied; infer_instance

/-- In the listing of a tree, each process comes before those of its object changes that
are not earlier than its record. -/
def ProcessesFirst (t : ProcessStateChange) : Prop :=
  ∀ n ∈ t.labels, ∀ o ∈ n.stateChanges, n.info.time ≤ o.time →
    Before t.getAllStateChanges (.process n.info) (.object o)

/-! ## One tree -/

/-- The sort keeps a tied change in front of its process. -/
theorem sublist_of_tied {t : ProcessStateChange} {n : ProcessNode} {o : ObjectStateChange}
    (hn : n ∈ t.labels) (ho : o ∈ n.stateChanges) (htied : Tied n.info o) :
    [StateChange.object o, .process n.info].Sublist t.getAllStateChanges := by
  have hle : (StateChange.object o).le (.process n.info) := Or.inr htied
  induction t using Rose.induct with
  | h m ts ih =>
    rw [getAllStateChanges_node]
    apply List.pair_sublist_insertionSort hle
    rw [Rose.labels_node] at hn
    rcases List.mem_cons.1 hn with rfl | hn
    · have hobj : [StateChange.object o].Sublist
          (n.stateChanges.map StateChange.object ++ ts.flatMap getAllStateChanges) := by
        rw [List.singleton_sublist]
        exact List.mem_append_left _ (List.mem_map_of_mem ho)
      exact hobj.append (List.Sublist.refl [StateChange.process n.info])
    · obtain ⟨u, hu, hnu⟩ := Rose.mem_labelsAll.1 hn
      have hchild : (getAllStateChanges u).Sublist (ts.flatMap getAllStateChanges) := by
        rw [List.flatMap_def]
        exact List.sublist_flatten_of_mem (List.mem_map_of_mem hu)
      refine ((ih u hu hnu).trans hchild).trans ?_
      exact (List.sublist_append_right _ _).trans (List.sublist_append_left _ _)

/-- A tree is sorted by the comparator. -/
theorem getAllStateChanges_pairwise (t : ProcessStateChange) :
    t.getAllStateChanges.Pairwise StateChange.le := by
  cases t with
  | node n ts =>
    rw [getAllStateChanges_node]
    exact List.pairwise_insertionSort StateChange.le _

/-- **A tree lists its processes first** exactly when no node of it holds a tied change. -/
theorem listed_first_iff (t : ProcessStateChange) :
    ProcessesFirst t ↔ ∀ n ∈ t.labels, ∀ o ∈ n.stateChanges, ¬ Tied n.info o := by
  constructor
  · intro hfirst n hn o ho htied
    have hbefore := hfirst n hn o ho htied.1.ge
    exact not_before_of_sublist (sublist_of_tied hn ho htied) hbefore
  · intro huntied n hn o ho htime
    apply before_of_pairwise (fun sc => (StateChange.le_or_ge sc sc).elim id id)
      (getAllStateChanges_pairwise t)
    rintro (hlt | htied)
    · exact absurd htime (not_le.2 hlt)
    · exact huntied n hn o ho htied

/-! ## The changes added so far -/

/-- The record of the process that an object change is attributed to: the first process with
its id, or else the one made up for it. -/
def StateChangeHandler.owner (sdf : SimpleDateFormat) (h : StateChangeHandler) (o : ObjectStateChange) :
    Except Exn ProcessRecord :=
  match h.nodes.find? (belongs (.object o)) with
  | some n => .ok n.info
  | none => synthesise sdf o

/-- `P` holds of each process record in the trees and each object change attributed to it. -/
def Attributed (P : ProcessRecord → ObjectStateChange → Prop) (h : StateChangeHandler) : Prop :=
  ∀ n ∈ h.nodes, ∀ o ∈ n.stateChanges, P n.info o

variable {P : ProcessRecord → ObjectStateChange → Prop} {h h' : StateChangeHandler}

theorem attributed_append {ts : List ProcessStateChange} {t : ProcessStateChange} :
    Attributed P ⟨ts ++ [t]⟩ ↔ Attributed P ⟨ts⟩ ∧ ∀ n ∈ t.labels, ∀ o ∈ n.stateChanges, P n.info o := by
  rw [Attributed, nodes_append]
  simp only [List.mem_append, or_imp, forall_and]
  rfl

/-- A process that is added holds no object changes yet. -/
theorem attributed_process {q : ProcessRecord} {b : Bool}
    (he : addStateChange sdf h (.process q) = .ok (b, h')) : Attributed P h' ↔ Attributed P h := by
  rcases addStateChange_cases sdf h (.process q) with ⟨-, ts, hts, he'⟩ | ⟨-, t, he', ht⟩
  · rw [he'] at he
    simp only [Except.ok.injEq, Prod.mk.injEq] at he
    obtain ⟨-, rfl⟩ := he
    obtain ⟨l, a, us, r, hold, hnew, -, -⟩ := Rose.modifyFirstAll_at hts
    have hperm : (attach (.process q) a us).labels = (Rose.node a us).labels ++ [{ info := q }] := by
      simp [attach, leaf, Rose.labels_node, Rose.labelsAll_eq]
    rw [Attributed, Attributed, nodes, nodes, hold, hnew, hperm]
    simp only [List.mem_append, List.mem_singleton]
    constructor
    · intro hP n hn
      exact hP n (by tauto)
    · rintro hP n ((hn | hn | rfl) | hn)
      · exact hP n (by tauto)
      · exact hP n (by tauto)
      · simp
      · exact hP n (by tauto)
  · rw [he'] at he
    simp only [Except.ok.injEq, Prod.mk.injEq] at he
    obtain ⟨-, rfl⟩ := he
    obtain ⟨r, -, rfl⟩ | ⟨o, r, hsc, -⟩ := ht
    · rw [attributed_append]
      simp [leaf, Rose.labels_node, Rose.labelsAll]
    · cases hsc

/-- An object change that is added goes to its owner. -/
theorem attributed_object {o : ObjectStateChange} {b : Bool}
    (he : addStateChange sdf h (.object o) = .ok (b, h')) :
    Attributed P h' ↔ Attributed P h ∧ ∀ r, h.owner sdf o = .ok r → P r o := by
  rcases addStateChange_cases sdf h (.object o) with ⟨-, ts, hts, he'⟩ | ⟨hk, t, he', ht⟩
  · rw [he'] at he
    simp only [Except.ok.injEq, Prod.mk.injEq] at he
    obtain ⟨-, rfl⟩ := he
    obtain ⟨l, a, us, r, hold, hnew, hl, ha⟩ := Rose.modifyFirstAll_at hts
    have howner : h.owner sdf o = .ok a.info := by
      have hnone : l.find? (belongs (.object o)) = none := List.find?_eq_none.2 fun b hb => by
        simp [hl b hb]
      rw [owner, nodes, hold, Rose.labels_node, List.append_assoc, List.find?_append, hnone,
        Option.none_or, List.cons_append, List.find?_cons_of_pos ha]
    rw [howner, Attributed, Attributed, nodes, nodes, hold, hnew]
    simp only [attach, Rose.labels_node, List.mem_append, List.mem_cons, Except.ok.injEq, forall_eq']
    constructor
    · intro hP
      have hnode := hP { a with stateChanges := a.stateChanges ++ [o] } (by tauto)
      refine ⟨?_, hnode o (by simp)⟩
      rintro n ((hn | rfl | hn) | hn)
      · exact hP n (by tauto)
      · exact fun o' ho' => hnode o' (List.mem_append_left _ ho')
      · exact hP n (by tauto)
      · exact hP n (by tauto)
    · rintro ⟨hP, hPo⟩ n ((hn | rfl | hn) | hn)
      · exact hP n (by tauto)
      · intro o' ho'
        rcases List.mem_append.1 ho' with ho' | ho'
        · exact hP a (by tauto) o' ho'
        · rw [List.mem_singleton.1 ho']; exact hPo
      · exact hP n (by tauto)
      · exact hP n (by tauto)
  · rw [he'] at he
    simp only [Except.ok.injEq, Prod.mk.injEq] at he
    obtain ⟨-, rfl⟩ := he
    obtain ⟨r, hsc, -⟩ | ⟨o', r, hsc, hr, -, -, rfl⟩ := ht
    · cases hsc
    · cases hsc
      have howner : h.owner sdf o = .ok r := by
        have hnone : h.nodes.find? (belongs (.object o)) = none := List.find?_eq_none.2 fun n hn hb =>
          hk (List.mem_map.2 ⟨n, hn, belongs_iff.1 hb⟩)
        rw [owner, hnone]
        exact hr
      rw [howner, attributed_append]
      simp [Rose.labels_node, Rose.labelsAll]

/-- `P` holds of each object change among `scs` and its owner at the time it is added. -/
def EachAdded (sdf : SimpleDateFormat) (P : ProcessRecord → ObjectStateChange → Prop)
    (h : StateChangeHandler) (scs : List StateChange) : Prop :=
  ∀ pre o post bs h₁ r, scs = pre ++ .object o :: post → addAll sdf h pre = .ok (bs, h₁) →
    h₁.owner sdf o = .ok r → P r o

theorem addAll_cons {sc : StateChange} {scs : List StateChange} {b : Bool} {h₁ : StateChangeHandler}
    (he : addStateChange sdf h sc = .ok (b, h₁)) :
    addAll sdf h (sc :: scs) = (addAll sdf h₁ scs).map fun x => (b :: x.1, x.2) := by
  rw [addAll, he]
  rcases hrest : addAll sdf h₁ scs with e | ⟨bs, h₂⟩
  · simp [bind, Except.bind, Except.map, hrest]
  · simp [bind, Except.bind, Except.map, hrest]

theorem eachAdded_cons {sc : StateChange} {scs : List StateChange} {b : Bool} {h₁ : StateChangeHandler}
    (he : addStateChange sdf h sc = .ok (b, h₁)) : EachAdded sdf P h (sc :: scs) ↔
      (∀ o, sc = .object o → ∀ r, h.owner sdf o = .ok r → P r o) ∧ EachAdded sdf P h₁ scs := by
  constructor
  · intro hall
    refine ⟨fun o ho r hr => ?_, fun pre o post bs h₂ r hscs hpre hr => ?_⟩
    · subst ho
      exact hall [] o scs [] h r rfl rfl hr
    · refine hall (sc :: pre) o post (b :: bs) h₂ r (by rw [hscs]; rfl) ?_ hr
      rw [addAll_cons he, hpre]
      rfl
  · rintro ⟨hhead, htail⟩ pre o post bs h₂ r hscs hpre hr
    cases pre with
    | nil =>
      obtain ⟨hsc, -⟩ := List.cons.inj hscs
      obtain ⟨-, rfl⟩ : [] = bs ∧ h = h₂ := by simpa [addAll] using hpre
      exact hhead o hsc r hr
    | cons sc' pre =>
      obtain ⟨rfl, hrest⟩ := List.cons.inj hscs
      rw [addAll_cons he] at hpre
      rcases hrun : addAll sdf h₁ pre with e | ⟨bs', h₃⟩
      · rw [hrun] at hpre
        cases hpre
      · rw [hrun] at hpre
        obtain ⟨-, rfl⟩ : b :: bs' = bs ∧ h₃ = h₂ := by simpa [Except.map] using hpre
        exact htail pre o post bs' h₃ r hrest hrun hr

/-- **What a run attributes**: the pairs that were there, and each added object change with
its owner when it was added. -/
theorem attributed_addAll {scs : List StateChange} {bs : List Bool}
    (he : addAll sdf h scs = .ok (bs, h')) : Attributed P h' ↔ Attributed P h ∧ EachAdded sdf P h scs := by
  induction scs generalizing h bs with
  | nil =>
    obtain ⟨-, rfl⟩ : [] = bs ∧ h = h' := by simpa [addAll] using he
    simp [EachAdded]
  | cons sc scs ih =>
    obtain ⟨h₁, m, h1, -, -⟩ := add_records sdf h sc
    rw [addAll_cons h1] at he
    rcases hrest : addAll sdf h₁ scs with e | ⟨bs', h₂⟩
    · rw [hrest] at he
      cases he
    · rw [hrest] at he
      obtain ⟨-, rfl⟩ : true :: bs' = bs ∧ h₂ = h' := by simpa [Except.map] using he
      rw [ih hrest, eachAdded_cons h1]
      cases sc with
      | process q => simp [attributed_process h1]
      | object o => simp [attributed_object h1, and_assoc]

/-- **A process precedes its own changes** in every tree of the handler exactly when no
object change, as it was added, was tied with the record of its process. -/
theorem processes_first_iff (sdf : SimpleDateFormat) (scs : List StateChange) : ∃ bs h,
    addAll sdf {} scs = .ok (bs, h) ∧
      ((∀ t ∈ h.processTrees, ProcessesFirst t) ↔ EachAdded sdf (fun r o => ¬ Tied r o) {} scs) := by
  obtain ⟨h, m, he, -, -⟩ := addAll_records sdf scs {}
  have hempty : Attributed (fun r o => ¬ Tied r o) {} := by simp [Attributed, nodes, Rose.labelsAll]
  have hrun := attributed_addAll (P := fun r o => ¬ Tied r o) he
  refine ⟨_, h, he, ?_⟩
  rw [← and_iff_right (b := EachAdded sdf (fun r o => ¬ Tied r o) {} scs) hempty, ← hrun]
  simp only [listed_first_iff, Attributed, nodes, Rose.mem_labelsAll]
  constructor
  · rintro hall n ⟨t, ht, hn⟩
    exact hall t ht n hn
  · intro hall t ht n hn
    exact hall n ⟨t, ht, hn⟩

/-- The registry change of a process that was never reported. -/
def strayRegistryChange : ObjectStateChange :=
  ⟨"registry", 0, 77, "svchost.exe", "SetValueKey", "HKCU\\Run", ""⟩

/-- The process made up for it. -/
def strayProcess : ProcessRecord := ⟨"process", 0, 0, "CaptureClient.exe", "created", 77, "svchost.exe"⟩

/-- The process has the time of the registry change and is listed behind it. -/
theorem registry_listed_before : ∃ bs h t, addAll .utc {} [.object strayRegistryChange] = .ok (bs, h) ∧
    t ∈ h.processTrees ∧ ¬ ProcessesFirst t := by
  have hr : synthesise .utc strayRegistryChange = .ok strayProcess := by decide
  have hb : belongs (.object strayRegistryChange) { info := strayProcess } = true := rfl
  have hadd : addAll .utc {} [.object strayRegistryChange] =
      .ok ([true], ⟨[.node ⟨strayProcess, [strayRegistryChange]⟩ []]⟩) := by
    simp [addAll, addStateChange, Rose.modifyFirstAll, hr, hb, bind, Except.bind,
      ProcessStateChange.addStateChange, leaf, Rose.modifyFirst, attach]
  have hlisted : getAllStateChanges (.node ⟨strayProcess, [strayRegistryChange]⟩ []) =
      [.object strayRegistryChange, .process strayProcess] := by decide
  refine ⟨_, _, _, hadd, List.mem_singleton.2 rfl, fun hfirst => ?_⟩
  have hbefore := hfirst _ (Rose.label_mem_labels _) strayRegistryChange (List.mem_singleton.2 rfl) (le_refl 0)
  rw [hlisted] at hbefore
  exact absurd (hbefore 1 0 rfl rfl) (by omega)

end CaptureHPC
