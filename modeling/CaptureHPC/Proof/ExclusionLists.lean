import CaptureHPC.Spec.ExclusionLists

/-!
# What is left of the exclusion lists

* `parseExclusionList_eq`: a file that can be read gives the elements of its lines, whatever they are.
* `update_lists`: an event changes one list, and only if its file can be read.
* `reload_lists`: a reload leaves the lists that were read, and no other.
* `atomic_iff`: so it keeps a list whose file cannot be read exactly if there was none.
-/

namespace CaptureHPC

open ExclusionList ServerController

variable {files : String → ExclusionFile} {lists : ExclusionLists} {monitor filename mesg : String} {content : List Char}

/-- The list that a file gives, if it can be read to its end. -/
def newList (files : String → ExclusionFile) (monitor filename : String) : Option ExclusionList :=
  match files filename with
  | .text content false => some ⟨monitor, filename, (readLines false [] content).filterMap (exclusionOf monitor)⟩
  | _ => none

/-- The loop adds the elements of the lines, in order. -/
theorem foldl_parseLine (l : ExclusionList) (ls : List (List Char)) :
    ls.foldl parseLine l =
      { l with exclusionElements := l.exclusionElements ++ ls.filterMap (exclusionOf l.monitor) } := by
  induction ls generalizing l with
  | nil =>
    rw [List.filterMap_nil, List.append_nil]
    rfl
  | cons line ls ih =>
    rw [List.foldl_cons, ih, parseLine, List.filterMap_cons]
    cases exclusionOf l.monitor line with
    | none => rfl
    | some e => rw [List.append_assoc, List.singleton_append]

/-- **A list is parsed as a whole**, or it is said not to be. -/
theorem parseExclusionList_eq (files : String → ExclusionFile) (monitor filename : String) :
    (∃ ex, newList files monitor filename = some ex ∧
      parseExclusionList files { monitor, file := filename } = (true, ex)) ∨
    (newList files monitor filename = none ∧ (parseExclusionList files { monitor, file := filename }).1 = false) := by
  unfold newList parseExclusionList
  match files filename with
  | .notFound => exact .inr ⟨rfl, rfl⟩
  | .text content true => exact .inr ⟨rfl, rfl⟩
  | .text content false =>
    refine .inl ⟨_, rfl, ?_⟩
    simp only [foldl_parseLine, List.nil_append, Bool.not_false]

/-- **One list**: it is the new one, or what it was if its file cannot be read. -/
theorem reloadList_eq (files : String → ExclusionFile) (monitor filename : String) (lists : ExclusionLists) :
    reloadList files monitor filename lists =
      Function.update lists monitor ((newList files monitor filename).or (lists monitor)) := by
  unfold reloadList
  obtain ⟨ex, hnew, hparse⟩ | ⟨hnew, hparse⟩ := parseExclusionList_eq files monitor filename
  · rw [hparse, hnew]
    rfl
  · rw [hnew, Option.none_or, Function.update_eq_self]
    match hresult : parseExclusionList files { monitor, file := filename } with
    | (true, ex) =>
      rw [hresult] at hparse
      cases hparse
    | (false, ex) => rfl

/-- **An event** changes the list of its monitor, and only if the file can be read. -/
theorem update_lists {event : Element} (hname : event.name = "exclusion-list") (hadd : (event.get "add-list").isSome)
    (hmonitor : event.get "monitor" = some monitor) (hfile : event.get "file" = some filename)
    (files : String → ExclusionFile) (lists : ExclusionLists) :
    ClientsController.update files event lists =
      Function.update lists monitor ((newList files monitor filename).or (lists monitor)) := by
  unfold ClientsController.update
  rw [if_pos ⟨hname, hadd⟩, hmonitor, hfile]
  exact reloadList_eq files monitor filename lists

/-- Several lists, one after the other. -/
theorem foldl_reloadList (files : String → ExclusionFile) {entries : List (String × String)}
    (hentries : (entries.map Prod.fst).Nodup) (lists : ExclusionLists) (monitor : String) :
    entries.foldl (fun lists entry => reloadList files entry.1 entry.2 lists) lists monitor =
      ((entries.lookup monitor).bind (newList files monitor)).or (lists monitor) := by
  induction entries generalizing lists with
  | nil => rfl
  | cons entry entries ih =>
    obtain ⟨first, filename⟩ := entry
    rw [List.map_cons, List.nodup_cons] at hentries
    rw [List.foldl_cons, ih hentries.2, reloadList_eq, List.lookup_cons]
    by_cases h : monitor = first
    · subst h
      -- the list is not reloaded again
      have hlookup : entries.lookup monitor = none := by
        rw [List.lookup_eq_none_iff]
        intro entry hentry
        refine bne_iff_ne.2 fun heq => hentries.1 ?_
        exact List.mem_map.2 ⟨entry, hentry, heq.symm⟩
      rw [hlookup, beq_self_eq_true, Function.update_self]
      rfl
    · rw [beq_false_of_ne h, Function.update_of_ne h]

theorem lookup_reloadedLists (h : (monitor, filename) ∈ reloadedLists) : reloadedLists.lookup monitor = some filename := by
  have hall : ∀ entry ∈ reloadedLists, reloadedLists.lookup entry.1 = some entry.2 := by decide
  exact hall _ h

/-- After a reload there are the lists whose files can be read. -/
theorem parseReload_eq (files : String → ExclusionFile) (lists : ExclusionLists) (monitor : String) :
    parseReload files "reload" lists monitor = (reloadedLists.lookup monitor).bind (newList files monitor) := by
  have hmesg : ' ' ∉ "reload".toList ∧ "reload" = "reload" := by decide
  rw [parseReload, if_pos hmesg, reload, foldl_reloadList files (by decide)]
  exact Option.or_none

/-- **A reload leaves the list that was read**, with every element of the file, and none if the file cannot be read or
the monitor has no file. What was there before is cleared. -/
theorem reload_lists (files : String → ExclusionFile) (lists : ExclusionLists) (monitor : String) :
    (∀ filename content, (monitor, filename) ∈ reloadedLists → files filename = .text content false →
      parseReload files "reload" lists monitor =
        some ⟨monitor, filename, (readLines false [] content).filterMap (exclusionOf monitor)⟩) ∧
    ((∀ filename content, (monitor, filename) ∈ reloadedLists → files filename ≠ .text content false) →
      parseReload files "reload" lists monitor = none) := by
  rw [parseReload_eq]
  constructor
  · intro filename content hmem hfile
    rw [lookup_reloadedLists hmem, Option.bind_some, newList, hfile]
  · intro h
    rw [Option.bind_eq_none_iff]
    intro filename hlookup
    have hmem : (monitor, filename) ∈ reloadedLists := by
      obtain ⟨l₁, l₂, hl, -⟩ := List.lookup_eq_some_iff.1 hlookup
      rw [hl]
      exact List.mem_append_right _ List.mem_cons_self
    have hunread := fun content => h filename content hmem
    unfold newList
    match hfile : files filename with
    | .notFound => rfl
    | .text content true => rfl
    | .text content false => exact absurd hfile (hunread content)

/-- A reload leaves each list new, or as it was if the file cannot be read. -/
def Atomic (files : String → ExclusionFile) (lists : ExclusionLists) : Prop :=
  ∀ monitor filename, (monitor, filename) ∈ reloadedLists →
    parseReload files "reload" lists monitor = (newList files monitor filename).or (lists monitor)

/-- A monitor whose file cannot be read loses its list. -/
theorem atomic_iff : Atomic files lists ↔
    ∀ monitor filename, (monitor, filename) ∈ reloadedLists → newList files monitor filename = none →
      lists monitor = none := by
  unfold Atomic
  refine forall_congr' fun monitor => forall_congr' fun filename => forall_congr' fun hmem => ?_
  rw [parseReload_eq, lookup_reloadedLists hmem, Option.bind_some]
  cases newList files monitor filename with
  | none => simp [eq_comm]
  | some ex => simp

/-- The files are gone, and there were lists. -/
theorem reload_not_atomic : ¬Atomic (fun _ => .notFound) fun monitor => some { monitor, file := "old.exl" } := by
  intro h
  have hnone := (h "file" "FileMonitor.exl" (by decide)).symm.trans (parseReload_eq _ _ "file")
  cases hnone

end CaptureHPC
