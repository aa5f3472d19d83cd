import CaptureHPC.Lib.Csv
import CaptureHPC.Proof.Partition

/-!
# When the lines of state changes can be read back

`toCSV` puts each field between quotes and changes nothing in it. A field that has a quote
can end early and pass a part of itself off as the next field (`forged_fields`), and one that
has a line break makes two lines of its record. Fields without either are read back, one
record a line (`csv_unambiguous_iff`).
-/

namespace CaptureHPC

open Lib StateChangeHandler

variable {sdf : SimpleDateFormat}

/-- The fields that `toCSV` prints. -/
def StateChange.fields (sdf : SimpleDateFormat) : StateChange → List String
  | .process r => [r.type, sdf.format r.time, intToString r.parentProcessId, r.parentProcess,
      r.action, intToString r.processId, r.process]
  | .object o => [o.type, sdf.format o.time, intToString o.processId, o.process, o.action,
      o.object1, o.object2]

/-- The marks of the server's files. -/
def csv : Csv Char where
  quote := '"'
  sep := ','
  eol := '\n'
  sep_ne_quote := by decide
  eol_ne_quote := by decide
  eol_ne_sep := by decide

/-- The records of a text, as a reader of comma-separated values sees them. -/
def csvRead (s : String) : Option (List (List String)) :=
  (csv.readAll s.toList).map fun ls => ls.map fun fs => fs.map String.ofList

/-- Where a text goes on in a new line. -/
def IsLineBreak (c : Char) : Prop := c = '\n' ∨ c = '\r'

/-- One line and its end. -/
def OneLine (s : String) : Prop := ∃ l, s = l ++ "\n" ∧ ∀ c ∈ l.toList, ¬ IsLineBreak c

/-- A text without quotes and line breaks. -/
def Plain (s : String) : Prop := ∀ c ∈ s.toList, c ≠ '"' ∧ ¬ IsLineBreak c

/-- The changes that `getStateChangesCSV` prints for a process (`getStateChangesCSV_places`). -/
def StateChangeHandler.listed (h : StateChangeHandler) (p : Int32) : List StateChange :=
  (h.csvPlaces p).filterMap h.changeAt

/-- What is printed for a process can be told apart and read back. -/
structure Unambiguous (sdf : SimpleDateFormat) (h : StateChangeHandler) (p : Int32) : Prop where
  /-- The line of a change is the line of no change with other fields. -/
  distinct : ∀ a ∈ h.listed p, ∀ b : StateChange, b.fields sdf ≠ a.fields sdf → b.toCSV sdf ≠ a.toCSV sdf
  /-- Each record is one line. -/
  oneLine : ∀ a ∈ h.listed p, OneLine (a.toCSV sdf)
  /-- It has the seven fields of the change. -/
  record : ∀ a ∈ h.listed p, csvRead (a.toCSV sdf) = some [a.fields sdf] ∧ (a.fields sdf).length = 7
  /-- The whole text has the changes in order. -/
  whole : csvRead (getStateChangesCSV sdf h p) = some ((h.listed p).map (StateChange.fields sdf))

/-! ## Texts as lists of characters -/

theorem toCSV_eq (sc : StateChange) : sc.toCSV sdf = csvLine (sc.fields sdf) := by
  cases sc <;> rfl

theorem length_fields (sc : StateChange) : (sc.fields sdf).length = 7 := by
  cases sc <;> rfl

theorem fields_ne_nil (sc : StateChange) : sc.fields sdf ≠ [] := by
  cases sc <;> exact List.cons_ne_nil _ _

theorem toList_intercalate_fields {fs : List String} (hne : fs ≠ []) :
    '"' :: (("\",\"".intercalate fs).toList ++ ['"', '\n']) = csv.line (fs.map String.toList) := by
  induction fs with
  | nil => exact absurd rfl hne
  | cons f fs ih =>
    cases fs with
    | nil => rw [String.intercalate_singleton]; rfl
    | cons f' fs =>
      have hrest := ih (List.cons_ne_nil _ _)
      rw [List.map_cons] at hrest
      rw [String.intercalate_cons_cons, List.map_cons, List.map_cons, Csv.line, ← hrest]
      simp [csv]

theorem toList_csvLine {fs : List String} (hne : fs ≠ []) :
    (csvLine fs).toList = csv.line (fs.map String.toList) := by
  rw [← toList_intercalate_fields hne]
  simp [csvLine]

theorem toList_toCSV (sc : StateChange) :
    (sc.toCSV sdf).toList = csv.line ((sc.fields sdf).map String.toList) := by
  rw [toCSV_eq, toList_csvLine (fields_ne_nil sc)]

/-- What `csvRead` reads, in characters. -/
theorem csvRead_eq_some {s : String} {ls : List (List String)} :
    csvRead s = some ls ↔ csv.readAll s.toList = some (ls.map fun fs => fs.map String.toList) := by
  unfold csvRead
  rw [Option.map_eq_some_iff]
  constructor
  · rintro ⟨cs, hcs, rfl⟩
    rw [hcs]
    simp
  · intro h
    exact ⟨_, h, by simp⟩

/-- A change is printed in one line when no field has a line break. -/
theorem oneLine_toCSV (sc : StateChange) :
    OneLine (sc.toCSV sdf) ↔ ∀ f ∈ sc.fields sdf, ∀ c ∈ f.toList, ¬ IsLineBreak c := by
  have hq : ¬ IsLineBreak csv.quote := by unfold IsLineBreak; decide
  have hs : ¬ IsLineBreak csv.sep := by unfold IsLineBreak; decide
  have hne : (sc.fields sdf).map String.toList ≠ [] := by simp [fields_ne_nil]
  obtain ⟨b, hb, hall⟩ := Csv.line_body hq hs hne
  rw [List.forall_mem_map] at hall
  rw [← hall]
  constructor
  · rintro ⟨l, hl, hbreak⟩
    have htext := congrArg String.toList hl
    rw [toList_toCSV, hb, String.toList_append] at htext
    have hbl : b = l.toList := List.append_cancel_right htext
    rw [hbl]
    exact hbreak
  · intro hbreak
    refine ⟨String.ofList b, ?_, by rwa [String.toList_ofList]⟩
    apply String.toList_injective
    rw [toList_toCSV, hb, String.toList_append, String.toList_ofList]
    rfl

/-- The text for a process, in characters. -/
theorem toList_getStateChangesCSV (h : StateChangeHandler) (p : Int32) :
    (getStateChangesCSV sdf h p).toList =
      ((h.listed p).map fun a => (a.fields sdf).map String.toList).flatMap csv.line := by
  rw [getStateChangesCSV_places, listed, String.toList_join]
  simp only [List.flatMap_map, toList_toCSV]

/-- **The text of state changes is unambiguous** exactly when no field that is printed has a
quote or a line break. -/
theorem csv_unambiguous_iff (sdf : SimpleDateFormat) (h : StateChangeHandler) (p : Int32) :
    Unambiguous sdf h p ↔ ∀ a ∈ h.listed p, ∀ f ∈ a.fields sdf, Plain f := by
  constructor
  · intro hu a ha f hf c hc
    have hread := (hu.record a ha).1
    rw [csvRead_eq_some, toList_toCSV, List.map_singleton] at hread
    have hclean := Csv.clean_of_readAll hread _ (List.mem_map_of_mem hf)
    refine ⟨?_, (oneLine_toCSV a).1 (hu.oneLine a ha) f hf c hc⟩
    rintro rfl
    exact hclean hc
  · intro hplain
    have hclean : ∀ a ∈ h.listed p, ∀ f ∈ (a.fields sdf).map String.toList, csv.quote ∉ f := by
      intro a ha f hf
      obtain ⟨s, hs, rfl⟩ := List.mem_map.1 hf
      exact fun hc => (hplain a ha s hs _ hc).1 rfl
    have hne : ∀ a : StateChange, (a.fields sdf).map String.toList ≠ [] := by simp [fields_ne_nil]
    refine ⟨fun a ha b hb heq => ?_, fun a ha => ?_, fun a ha => ⟨?_, length_fields a⟩, ?_⟩
    · -- the lines of two changes have equally many quotes only if both have none inside
      have hlines := congrArg String.toList heq
      rw [toList_toCSV, toList_toCSV] at hlines
      have hlen : ((b.fields sdf).map String.toList).length = ((a.fields sdf).map String.toList).length := by
        simp [length_fields]
      have hfields := Csv.line_inj (hne a) hlen (hclean a ha) hlines.symm
      exact hb (List.map_injective_iff.2 (fun _ _ => String.toList_injective) hfields.symm)
    · exact (oneLine_toCSV a).2 fun f hf c hc => (hplain a ha f hf c hc).2
    · rw [csvRead_eq_some, toList_toCSV]
      have hall : Csv.readAll csv ([(a.fields sdf).map String.toList].flatMap (Csv.line csv)) =
          some [(a.fields sdf).map String.toList] :=
        Csv.readAll_lines (by simp [fields_ne_nil]) (by simpa using hclean a ha)
      rwa [List.flatMap_singleton] at hall
    · rw [csvRead_eq_some, toList_getStateChangesCSV, List.map_map]
      apply Csv.readAll_lines
      · intro fs hfs
        obtain ⟨a, -, rfl⟩ := List.mem_map.1 hfs
        exact hne a
      · intro fs hfs
        obtain ⟨a, ha, rfl⟩ := List.mem_map.1 hfs
        exact hclean a ha

/-- Two writes to different registry values with one and the same record: a quoted separator
in a name moves the border between two fields. -/
theorem forged_fields : ∃ a b : StateChange, a.fields .utc ≠ b.fields .utc ∧ a.toCSV .utc = b.toCSV .utc :=
  ⟨.object ⟨"registry", 0, 7, "a.exe", "SetValueKey", "HKCU\\Run\",\"x", "y"⟩,
    .object ⟨"registry", 0, 7, "a.exe", "SetValueKey", "HKCU\\Run", "x\",\"y"⟩,
    by decide, by decide⟩

end CaptureHPC
