import CaptureHPC.Spec.DevicePaths

/-!
# Which name a path is read under

* `replaceFirst_first`: the entry that is replaced is the first that the text begins with.
* `dosName_iff`: a device path gets its own drive exactly if no name before it in the map begins the path.
* `hiveName_iff`: a registry name is mapped at a component boundary, by the longest name, exactly if the first
  name that begins it does so.
* `copied_iff`: a copied file mirrors its path exactly if it is in a directory.
-/

namespace CaptureHPC

open Cpp

variable {names before after : List (WString × WString)} {name : WString} {e : WString × WString}

/-! ## The loop over a map -/

theorem replaceFirst_cons (e : WString × WString) (names : List (WString × WString)) (name : WString) :
    replaceFirst (e :: names) name = if e.1 <+: name then e.2 ++ name.drop e.1.length else replaceFirst names name := by
  obtain ⟨first, second⟩ := e
  rw [replaceFirst, rfindStart]
  by_cases h : first <+: name
  · rw [if_pos h, if_pos h, if_pos (by decide), replace]
    simp
  · rw [if_neg h, if_neg h, if_neg (by decide)]

/-- **The first name that the text begins with is replaced.** -/
theorem replaceFirst_first (h : ∀ b ∈ before, ¬b.1 <+: name) (he : e.1 <+: name) :
    replaceFirst (before ++ e :: after) name = e.2 ++ name.drop e.1.length := by
  induction before with
  | nil => rw [List.nil_append, replaceFirst_cons, if_pos he]
  | cons b before ih =>
    rw [List.forall_mem_cons] at h
    rw [List.cons_append, replaceFirst_cons, if_neg h.1, ih h.2]

theorem replaceFirst_none (h : ∀ b ∈ names, ¬b.1 <+: name) : replaceFirst names name = name := by
  induction names with
  | nil => rfl
  | cons b names ih =>
    rw [List.forall_mem_cons] at h
    rw [replaceFirst_cons, if_neg h.1, ih h.2]

/-- Either no name begins the text, or there is a first one that does. -/
theorem none_or_first (names : List (WString × WString)) (name : WString) :
    (∀ b ∈ names, ¬b.1 <+: name) ∨
      ∃ before e after, names = before ++ e :: after ∧ (∀ b ∈ before, ¬b.1 <+: name) ∧ e.1 <+: name := by
  induction names with
  | nil => exact .inl (by simp)
  | cons b names ih =>
    by_cases hb : b.1 <+: name
    · exact .inr ⟨[], b, names, rfl, by simp, hb⟩
    · rcases ih with h | ⟨before, e, after, rfl, h, he⟩
      · exact .inl (List.forall_mem_cons.2 ⟨hb, h⟩)
      · exact .inr ⟨b :: before, e, after, rfl, List.forall_mem_cons.2 ⟨hb, h⟩, he⟩

/-! ## Device names -/

/-- A drive letter and a colon. -/
def IsDrive (d : WString) : Prop := ∃ letter, d = [letter, colon]

/-- Two drives in front of what two names leave of a text: the names are the same. -/
theorem eq_of_drives {d d' V V' : WString} (hd : IsDrive d) (hd' : IsDrive d') (hV : V <+: name) (hV' : V' <+: name)
    (h : d' ++ name.drop V'.length = d ++ name.drop V.length) : V' = V := by
  obtain ⟨letter, rfl⟩ := hd
  obtain ⟨letter', rfl⟩ := hd'
  have hlength := congrArg List.length h
  simp only [List.length_append, List.length_cons, List.length_nil, List.length_drop] at hlength
  have hle := hV.length_le
  have hle' := hV'.length_le
  rcases List.prefix_or_prefix_of_prefix hV' hV with hpre | hpre
  · exact hpre.eq_of_length (by omega)
  · exact (hpre.eq_of_length (by omega)).symm

/-- **A device path gets the drive of its own device exactly if no name before it in the map begins the path**,
and whatever the order of the map exactly if no other name of the map does. -/
theorem dosName_iff (names : List (WString × WString)) (hnames : (names.map Prod.fst).Nodup)
    (hdrives : ∀ e ∈ names, IsDrive e.2) (V drive rest : WString) (hV : (V, drive) ∈ names) :
    (∀ before after, names = before ++ (V, drive) :: after →
      (FileMonitor.convertFileObjectNameToDosName names (V ++ backslash :: rest) = drive ++ backslash :: rest ↔
        ∀ e ∈ before, ¬e.1 <+: V ++ backslash :: rest)) ∧
    ((∀ order, order.Perm names →
      FileMonitor.convertFileObjectNameToDosName order (V ++ backslash :: rest) = drive ++ backslash :: rest) ↔
        ∀ e ∈ names, e.1 ≠ V → ¬e.1 <+: V ++ backslash :: rest) := by
  have hpath : V <+: V ++ backslash :: rest := List.prefix_append _ _
  have hright : drive ++ (V ++ backslash :: rest).drop V.length = drive ++ backslash :: rest := by
    rw [List.drop_left]
  have hinOrder : ∀ order, order.Perm names → ∀ before after, order = before ++ (V, drive) :: after →
      (FileMonitor.convertFileObjectNameToDosName order (V ++ backslash :: rest) = drive ++ backslash :: rest ↔
        ∀ e ∈ before, ¬e.1 <+: V ++ backslash :: rest) := by
    rintro order hperm before after rfl
    have hnd : ((before ++ (V, drive) :: after).map Prod.fst).Nodup := (hperm.map Prod.fst).nodup_iff.2 hnames
    have hdrive : ∀ e ∈ before ++ (V, drive) :: after, IsDrive e.2 := fun e he => hdrives e (hperm.mem_iff.1 he)
    unfold FileMonitor.convertFileObjectNameToDosName
    constructor
    · intro h
      rcases none_or_first before (V ++ backslash :: rest) with hnone | ⟨pre, e, post, rfl, hfirst, he⟩
      · exact hnone
      · -- the earlier name would be replaced, by another drive than the right one
        rw [List.append_assoc, List.cons_append, replaceFirst_first hfirst he, ← hright] at h
        have heV := eq_of_drives (hdrive (V, drive) (by simp)) (hdrive e (by simp)) hpath he h
        rw [List.map_append, List.map_append, List.map_cons, List.map_cons] at hnd
        refine absurd heV fun heq => (List.nodup_append.1 hnd).2.2 e.1 (by simp) V (by simp) heq
    · intro h
      rw [replaceFirst_first h hpath, hright]
  refine ⟨hinOrder names (.refl names), fun h e he hne hpre => ?_, fun h order hperm => ?_⟩
  · -- an order in which the other name comes first
    have hmem : (V, drive) ∈ names.erase e :=
      (List.mem_erase_of_ne fun heq => hne (congrArg Prod.fst heq).symm).2 hV
    obtain ⟨before, after, hsplit⟩ := List.append_of_mem hmem
    have horder : (e :: names.erase e).Perm names := (List.perm_cons_erase he).symm
    have hcons : e :: names.erase e = (e :: before) ++ (V, drive) :: after := by rw [hsplit, List.cons_append]
    exact (hinOrder _ horder _ _ hcons).1 (h _ horder) e List.mem_cons_self hpre
  · obtain ⟨before, after, rfl⟩ := List.append_of_mem (hperm.mem_iff.2 hV)
    refine (hinOrder _ hperm before after rfl).2 fun e he hpre => ?_
    have hnd : ((before ++ (V, drive) :: after).map Prod.fst).Nodup := (hperm.map Prod.fst).nodup_iff.2 hnames
    rw [List.map_append, List.map_cons] at hnd
    refine h e (hperm.mem_iff.1 (List.mem_append_left _ he)) (fun heq => ?_) hpre
    exact (List.nodup_append.1 hnd).2.2 e.1 (List.mem_map_of_mem he) V List.mem_cons_self heq

/-- The name of one device begins that of another. -/
def twoVolumes : List (WString × WString) :=
  [(lit "\\Device\\HarddiskVolume1", lit "C:"), (lit "\\Device\\HarddiskVolume10", lit "D:")]

/-- In the other order the first volume is read under its own drive. -/
theorem twoVolumes_drive :
    FileMonitor.convertFileObjectNameToDosName twoVolumes.reverse
        (lit "\\Device\\HarddiskVolume1" ++ backslash :: lit "a.exe") = lit "C:" ++ backslash :: lit "a.exe" := by
  have hdrives : ∀ e ∈ twoVolumes.reverse, IsDrive e.2 := by
    rw [twoVolumes, List.reverse_cons, List.reverse_singleton, List.singleton_append, List.forall_mem_cons,
      List.forall_mem_singleton]
    exact ⟨⟨0x44, by decide⟩, ⟨0x43, by decide⟩⟩
  have h := dosName_iff twoVolumes.reverse (by decide) hdrives (lit "\\Device\\HarddiskVolume1") (lit "C:")
    (lit "a.exe") (by decide)
  refine (h.1 [(lit "\\Device\\HarddiskVolume10", lit "D:")] [] rfl).2 fun e he => ?_
  rw [List.mem_singleton.1 he]
  decide

/-- The tenth volume is read under the drive of the first. -/
theorem twoVolumes_mistaken :
    FileMonitor.convertFileObjectNameToDosName twoVolumes
        (lit "\\Device\\HarddiskVolume10" ++ backslash :: lit "a.exe") ≠ lit "D:" ++ backslash :: lit "a.exe" := by
  decide

/-! ## Registry names -/

/-- The name is the whole text, or a backslash follows it. -/
def Qualifies (name : WString) (e : WString × WString) : Prop := e.1 = name ∨ e.1 ++ [backslash] <+: name

instance (name : WString) (e : WString × WString) : Decidable (Qualifies name e) := inferInstanceAs (Decidable (_ ∨ _))

/-- Of the names that qualify it is the longest. -/
def Longest (names : List (WString × WString)) (name : WString) (e : WString × WString) : Prop :=
  e ∈ names ∧ Qualifies name e ∧ ∀ q ∈ names, Qualifies name q → q.1.length ≤ e.1.length

/-- What a registry name is mapped to: the longest name that qualifies is replaced, or nothing is. -/
def Mapped (names : List (WString × WString)) (name out : WString) : Prop :=
  (∃ e, Longest names name e ∧ out = e.2 ++ name.drop e.1.length) ∨ (∀ e ∈ names, ¬Qualifies name e) ∧ out = name

/-- One entry is the other, with the same text behind both of its names. -/
def Continues (e q : WString × WString) : Prop :=
  ∃ more, e = (q.1 ++ more, q.2 ++ more) ∨ q = (e.1 ++ more, e.2 ++ more)

theorem Qualifies.isPrefix (h : Qualifies name e) : e.1 <+: name := by
  rcases h with h | h
  · exact h ▸ List.prefix_refl _
  · exact (List.prefix_append _ _).trans h

/-- Two names that begin a text leave the same text of it behind what they are mapped to. -/
theorem continues_iff {q : WString × WString} (he : e.1 <+: name) (hq : q.1 <+: name) :
    e.2 ++ name.drop e.1.length = q.2 ++ name.drop q.1.length ↔ Continues e q := by
  obtain ⟨e1, e2⟩ := e
  obtain ⟨q1, q2⟩ := q
  constructor
  · intro h
    rcases List.prefix_or_prefix_of_prefix he hq with ⟨more, rfl⟩ | ⟨more, rfl⟩
    · obtain ⟨rest, rfl⟩ := hq
      refine ⟨more, .inr ?_⟩
      simp only [List.append_assoc, List.drop_left, List.length_append] at h
      rw [← List.append_assoc e1, ← List.length_append, List.drop_left, ← List.append_assoc] at h
      rw [List.append_cancel_right h]
    · obtain ⟨rest, rfl⟩ := he
      refine ⟨more, .inl ?_⟩
      simp only [List.append_assoc, List.drop_left, List.length_append] at h
      rw [← List.append_assoc q1, ← List.length_append, List.drop_left, ← List.append_assoc] at h
      rw [List.append_cancel_right h]
  · rintro ⟨more, heq | heq⟩
    · obtain ⟨rfl, rfl⟩ := Prod.mk.inj heq
      obtain ⟨rest, rfl⟩ := he
      rw [List.drop_left, List.append_assoc q1, List.drop_left, List.append_assoc]
    · obtain ⟨rfl, rfl⟩ := Prod.mk.inj heq
      obtain ⟨rest, rfl⟩ := hq
      rw [List.drop_left, List.append_assoc e1, List.drop_left, List.append_assoc]

/-- **A registry name is mapped at a component boundary, by the longest name, exactly if the first name of the list
that begins it is that one**, up to entries that say the same. -/
theorem hiveName_iff (names : List (WString × WString)) (name : WString) :
    Mapped names name (RegistryMonitor.convertRegistryObjectNameToHiveName names name) ↔
      ∀ e, names.find? (fun e => decide (e.1 <+: name)) = some e →
        (∃ q, Longest names name q ∧ Continues e q) ∨ (∀ q ∈ names, ¬Qualifies name q) ∧ e.1 = e.2 := by
  unfold RegistryMonitor.convertRegistryObjectNameToHiveName
  cases hfind : names.find? fun e => decide (e.1 <+: name) with
  | none =>
    have hnone : ∀ b ∈ names, ¬b.1 <+: name := by simpa using List.find?_eq_none.1 hfind
    refine ⟨fun _ e he => ?_, fun _ => .inr ⟨fun q hq h => hnone q hq h.isPrefix, replaceFirst_none hnone⟩⟩
    cases he
  | some e =>
    obtain ⟨he, before, after, hnames, hbefore⟩ := List.find?_eq_some_iff_append.1 hfind
    have hpre : e.1 <+: name := of_decide_eq_true he
    have hout : replaceFirst names name = e.2 ++ name.drop e.1.length := by
      rw [hnames]
      exact replaceFirst_first (by simpa using hbefore) hpre
    have hself : e.2 ++ name.drop e.1.length = name ↔ e.1 = e.2 := by
      obtain ⟨rest, rfl⟩ := hpre
      rw [List.drop_left, List.append_cancel_right_eq]
      exact eq_comm
    rw [hout]
    constructor
    · rintro h _ ⟨⟩
      rcases h with ⟨q, hq, hmapped⟩ | ⟨hnone, hmapped⟩
      · exact .inl ⟨q, hq, (continues_iff hpre hq.2.1.isPrefix).1 hmapped⟩
      · exact .inr ⟨hnone, hself.1 hmapped⟩
    · intro h
      rcases h e rfl with ⟨q, hq, hcontinues⟩ | ⟨hnone, heq⟩
      · exact .inl ⟨q, hq, (continues_iff hpre hq.2.1.isPrefix).2 hcontinues⟩
      · exact .inr ⟨hnone, hself.2 heq⟩

/-- The name of one user's key begins that of another's. -/
theorem otherUser_mistaken :
    ¬Mapped (RegistryMonitor.objectNameMap (lit "\\REGISTRY\\USER\\S-1-5-21-7-100"))
      (lit "\\REGISTRY\\USER\\S-1-5-21-7-1000\\Software")
      (RegistryMonitor.convertRegistryObjectNameToHiveName
        (RegistryMonitor.objectNameMap (lit "\\REGISTRY\\USER\\S-1-5-21-7-100"))
        (lit "\\REGISTRY\\USER\\S-1-5-21-7-1000\\Software")) := by
  have hout : RegistryMonitor.convertRegistryObjectNameToHiveName
      (RegistryMonitor.objectNameMap (lit "\\REGISTRY\\USER\\S-1-5-21-7-100"))
      (lit "\\REGISTRY\\USER\\S-1-5-21-7-1000\\Software") = lit "HKCU0\\Software" := by decide
  have hhive : Qualifies (lit "\\REGISTRY\\USER\\S-1-5-21-7-1000\\Software") (lit "\\REGISTRY\\USER", lit "HKU") := by
    decide
  rw [hout]
  rintro (⟨e, ⟨he, hqual, -⟩, hmapped⟩ | ⟨hnone, -⟩)
  · revert hmapped hqual
    revert e
    decide
  · exact hnone _ (by decide) hhive

/-! ## Copied files -/

/-- `D:\d1\...\dk\f`. -/
structure AbsolutePath where
  drive : WChar
  directories : List WString
  file : WString
  drive_ne : drive ≠ colon ∧ drive ≠ backslash
  noBackslash : ∀ c ∈ file :: directories, backslash ∉ c

namespace AbsolutePath

/-- The directories, each with a backslash in front of it. -/
def below (p : AbsolutePath) : WString := p.directories.flatMap (backslash :: ·)

def text (p : AbsolutePath) : WString := p.drive :: colon :: (p.below ++ backslash :: p.file)

/-- The copy under `logPath` that mirrors the path. -/
def mirrored (logPath : WString) (p : AbsolutePath) : FileMonitor.Copied where
  intermediateDirectory := logPath ++ p.drive :: p.below
  filePath := p.text
  filePathAndName := logPath ++ p.drive :: (p.below ++ backslash :: p.file)

theorem file_notMem (p : AbsolutePath) : backslash ∉ p.file := p.noBackslash p.file List.mem_cons_self

theorem substr_drive (p : AbsolutePath) : substr p.text 0 (find p.text colon 0) = some [p.drive] := by
  have hcolon : colon ∉ [p.drive] := by simpa using p.drive_ne.1.symm
  rw [show p.text = [p.drive] ++ colon :: (p.below ++ backslash :: p.file) from rfl, find_append hcolon]
  exact substr_append [] [p.drive] _

theorem findLastOf_text (p : AbsolutePath) : findLastOf p.text backslash = p.below.length + 2 := by
  have hsplit : p.text = (p.drive :: colon :: p.below) ++ backslash :: p.file := rfl
  rw [hsplit, findLastOf_append _ p.file_notMem]
  push_cast [List.length_cons]
  ring

theorem substr_file (p : AbsolutePath) :
    substr p.text (findLastOf p.text backslash + 1) npos = some p.file := by
  have hsplit : p.text = (p.drive :: colon :: (p.below ++ [backslash])) ++ p.file := by simp [text]
  have hat : findLastOf p.text backslash + 1 = (p.drive :: colon :: (p.below ++ [backslash])).length := by
    rw [findLastOf_text]
    push_cast [List.length_cons, List.length_append, List.length_nil]
    ring
  rw [hat]
  conv_lhs => rw [hsplit]
  exact substr_to_end _ _

theorem find_text (p : AbsolutePath) : find p.text backslash 0 = 2 := by
  have hsplit : ∃ rest, p.text = [p.drive, colon] ++ backslash :: rest := by
    cases hdirs : p.directories with
    | nil => exact ⟨p.file, by simp [text, below, hdirs]⟩
    | cons d ds => exact ⟨d ++ (ds.flatMap (backslash :: ·) ++ backslash :: p.file), by simp [text, below, hdirs]⟩
  obtain ⟨rest, hrest⟩ := hsplit
  have hdrive : backslash ∉ [p.drive, colon] := by
    rw [List.mem_pair, not_or]
    exact ⟨p.drive_ne.2.symm, by decide⟩
  rw [hrest, find_append hdrive]
  rfl

/-- With a directory the text between the first and the last backslash is copied. -/
theorem copy_below (logPath : WString) {p : AbsolutePath} (h : p.directories ≠ []) :
    FileMonitor.createFilePathAndCopy logPath p.text = some (p.mirrored logPath) := by
  obtain ⟨below, hbelow⟩ : ∃ below, p.below = backslash :: below := by
    cases hdirs : p.directories with
    | nil => exact absurd hdirs h
    | cons d ds =>
      refine ⟨d ++ ds.flatMap (backslash :: ·), ?_⟩
      rw [AbsolutePath.below, hdirs, List.flatMap_cons, List.cons_append]
  have hdirectories : substr p.text (find p.text backslash 0 + 1)
      (findLastOf p.text backslash - find p.text backslash 0 - 1) = some below := by
    rw [find_text, findLastOf_text, hbelow, List.length_cons]
    have hsplit : p.text = [p.drive, colon, backslash] ++ (below ++ backslash :: p.file) := by simp [text, hbelow]
    have hcount : ((below.length + 1 : ℕ) : ℤ) + 2 - 2 - 1 = below.length := by push_cast; ring
    rw [hsplit, hcount]
    exact substr_append _ _ _
  rw [FileMonitor.createFilePathAndCopy, substr_drive, substr_file, hdirectories]
  simp [mirrored, hbelow]

/-- At the root of the drive the count wraps around, and the name of the file is taken for a directory. -/
theorem copy_root (logPath : WString) {p : AbsolutePath} (h : p.directories = []) :
    FileMonitor.createFilePathAndCopy logPath p.text =
      some ⟨logPath ++ p.drive :: backslash :: p.file, p.text,
        logPath ++ p.drive :: backslash :: (p.file ++ backslash :: p.file)⟩ := by
  have hbelow : p.below = [] := by rw [below, h, List.flatMap_nil]
  have hdirectories : substr p.text (find p.text backslash 0 + 1)
      (findLastOf p.text backslash - find p.text backslash 0 - 1) = some p.file := by
    rw [find_text, findLastOf_text, hbelow]
    have hsplit : p.text = [p.drive, colon, backslash] ++ p.file := by simp [text, hbelow]
    rw [hsplit]
    exact substr_to_end _ _
  rw [FileMonitor.createFilePathAndCopy, substr_drive, substr_file, hdirectories]
  simp

/-- **A copied file mirrors its path exactly if it is not at the root of its drive.** There the name of the file is
made a directory, and the copy goes below it. -/
theorem copied_iff (logPath : WString) (p : AbsolutePath) :
    (FileMonitor.createFilePathAndCopy logPath p.text = some (p.mirrored logPath) ↔ p.directories ≠ []) ∧
      (p.directories = [] → FileMonitor.createFilePathAndCopy logPath p.text =
        some ⟨logPath ++ p.drive :: backslash :: p.file, p.text,
          logPath ++ p.drive :: backslash :: (p.file ++ backslash :: p.file)⟩) := by
  refine ⟨⟨fun h hroot => ?_, copy_below logPath⟩, copy_root logPath⟩
  rw [copy_root logPath hroot, Option.some_inj, mirrored, FileMonitor.Copied.mk.injEq] at h
  have hlength := congrArg List.length h.1
  simp [below, hroot] at hlength

/-- `C:\a.exe`. -/
def rootFile : AbsolutePath where
  drive := 0x43
  directories := []
  file := lit "a.exe"
  drive_ne := by decide
  noBackslash := by decide

theorem rootFile_mistaken :
    FileMonitor.createFilePathAndCopy (lit "logs\\modified_files\\") rootFile.text ≠
      some (rootFile.mirrored (lit "logs\\modified_files\\")) := by
  decide

end AbsolutePath

end CaptureHPC
