import CaptureHPC.Spec.ProcessManager

/-!
# The paths of process images

* `DeviceSplit`: what of a path is taken for the device, and what is left.
* `convert_split`, `convert_two`: with two backslashes there is nothing to take, and the conversion throws.
* `settles_iff`: which paths are converted, once and for all.
-/

namespace CaptureHPC

open Cpp

variable {w : Windows} {s device rest szTemp : WString}

/-- A long form has the drive that the path had. -/
def Windows.KeepsDrive (w : Windows) : Prop :=
  ∀ letter rest path, w.getLongPathName (letter :: colon :: rest) = .written path → ∃ rest', path = letter :: colon :: rest'

/-- The device is the text up to the third backslash. After a single backslash there is no device. -/
inductive DeviceSplit : WString → WString → WString → Prop
  | one {name : WString} (h : backslash ∉ name) : DeviceSplit (backslash :: name) [] (backslash :: name)
  | many {root volume rest : WString} (hroot : backslash ∉ root) (hvolume : backslash ∉ volume) :
      DeviceSplit (backslash :: (root ++ backslash :: (volume ++ backslash :: rest)))
        (backslash :: (root ++ backslash :: volume)) (backslash :: rest)

/-- The long form of the path under its drive fits into the array. -/
def Windows.LongFormFits (w : Windows) (s : WString) : Prop :=
  ∀ device rest, DeviceSplit s device rest →
    w.getLongPathName (cString (ProcessManager.convertDevicePathToDOSDrive w device ++ rest)) ≠ .tooLong

namespace ProcessManager

/-! ## Drives -/

theorem driveLetter_ne {letter : WChar} (h : letter ∈ driveLetters) : letter ≠ backslash ∧ letter ≠ 0 := by
  have hall : driveLetters.all (fun letter => letter ≠ backslash ∧ letter ≠ 0) = true := by decide
  exact of_decide_eq_true (List.all_eq_true.1 hall letter h)

theorem drive_eq (w : Windows) (devicePath : WString) : ∃ letter, letter ≠ backslash ∧ letter ≠ 0 ∧
    convertDevicePathToDOSDrive w devicePath = [letter, colon] := by
  unfold convertDevicePathToDOSDrive
  cases hfind : driveLetters.find? fun drive => w.queryDosDevice [drive, colon] = some (cString devicePath) with
  | none => exact ⟨0x3F, by decide, by decide, by decide⟩
  | some drive =>
    obtain ⟨hne, hzero⟩ := driveLetter_ne (List.mem_of_find?_eq_some hfind)
    exact ⟨drive, hne, hzero, rfl⟩

/-- A path under its drive has a drive after `GetLongPathName`. -/
theorem longPath_eq (hkeeps : w.KeepsDrive) (szTemp device rest : WString)
    (hfits : w.getLongPathName (cString (convertDevicePathToDOSDrive w device ++ rest)) ≠ .tooLong) :
    ∃ letter rest', letter ≠ backslash ∧
      longPath w szTemp (convertDevicePathToDOSDrive w device ++ rest) = letter :: colon :: rest' := by
  obtain ⟨letter, hne, hzero, hdrive⟩ := drive_eq w device
  have hcString : cString ([letter, colon] ++ rest) = letter :: colon :: cString rest := by
    simp [cString, hzero, show colon ≠ 0 by decide]
  rw [hdrive, hcString] at hfits
  rw [hdrive, longPath, hcString]
  cases hlong : w.getLongPathName (letter :: colon :: cString rest) with
  | failed => exact ⟨letter, rest, hne, rfl⟩
  | written path =>
    obtain ⟨rest', rfl⟩ := hkeeps _ _ _ hlong
    exact ⟨letter, rest', hne, rfl⟩
  | tooLong => exact absurd hlong hfits

/-! ## The conversion -/

/-- A path that does not begin with a backslash, or is short, is left as it is. -/
theorem convert_short (w : Windows) (szTemp : WString) (h : s.head? ≠ some backslash ∨ s.length ≤ 23) :
    convertFileObjectPathToDOSPath w szTemp s = some s := by
  unfold convertFileObjectPathToDOSPath
  dsimp only
  by_cases hstart : find s backslash 0 = 0
  · have hshort : ¬s.length > 23 := by
      have := h.resolve_left (not_not.2 (find_eq_zero.1 hstart))
      omega
    rw [if_pos hstart, if_neg hshort]
  · rw [if_neg hstart]

theorem convert_long (w : Windows) (szTemp : WString) (hhead : s.head? = some backslash) (hlong : 23 < s.length) :
    convertFileObjectPathToDOSPath w szTemp s =
      (substr s 0 (find s backslash (find s backslash 1 + 1))).bind fun devicePath =>
        (substr s (find s backslash (find s backslash 1 + 1)) npos).bind fun rest =>
          some (longPath w szTemp (convertDevicePathToDOSDrive w devicePath ++ rest)) := by
  unfold convertFileObjectPathToDOSPath
  dsimp only
  rw [if_pos (find_eq_zero.2 hhead), if_pos hlong]
  rfl

/-- **With a device to take**, the drive takes its place. -/
theorem convert_split (w : Windows) (szTemp : WString) (hsplit : DeviceSplit s device rest) (hlong : 23 < s.length) :
    convertFileObjectPathToDOSPath w szTemp s =
      some (longPath w szTemp (convertDevicePathToDOSDrive w device ++ rest)) := by
  cases hsplit with
  | @one name h =>
    rw [convert_long w szTemp rfl hlong]
    have hsecond : find (backslash :: name) backslash 1 = npos := find_absent [backslash] h
    have hfirst : find (backslash :: name) backslash (npos + 1) = 0 := find_eq_zero.2 rfl
    rw [hsecond, hfirst]
    have hdevice : substr (backslash :: name) 0 0 = some [] := substr_append [] [] _
    have hrest : substr (backslash :: name) 0 npos = some (backslash :: name) := substr_to_end [] _
    rw [hdevice, Option.bind_some, hrest, Option.bind_some]
  | @many root volume rest hroot hvolume =>
    rw [convert_long w szTemp rfl hlong]
    have hsecond : find (backslash :: (root ++ backslash :: (volume ++ backslash :: rest))) backslash 1 =
        ([backslash] ++ root).length := find_behind [backslash] hroot _
    have hbehind : (([backslash] ++ root).length : ℤ) + 1 = ((backslash :: (root ++ [backslash])).length : ℕ) := by
      push_cast [List.length_append, List.length_cons, List.length_nil]
      ring
    have hsplit : backslash :: (root ++ backslash :: (volume ++ backslash :: rest)) =
        backslash :: (root ++ [backslash]) ++ (volume ++ backslash :: rest) := by simp
    have hthird : find (backslash :: (root ++ backslash :: (volume ++ backslash :: rest))) backslash
        ((backslash :: (root ++ [backslash])).length : ℕ) = ((backslash :: (root ++ backslash :: volume)).length : ℕ) := by
      rw [hsplit, find_behind _ hvolume]
      simp
    rw [hsecond, hbehind, hthird]
    have hdevice : backslash :: (root ++ backslash :: (volume ++ backslash :: rest)) =
        backslash :: (root ++ backslash :: volume) ++ backslash :: rest := by simp
    rw [hdevice]
    have hfirst := substr_append [] (backslash :: (root ++ backslash :: volume)) (backslash :: rest)
    rw [List.nil_append] at hfirst
    have hrest := substr_to_end (backslash :: (root ++ backslash :: volume)) (backslash :: rest)
    rw [show ((0 : ℤ)) = (([] : WString).length : ℕ) from rfl, hfirst, Option.bind_some, hrest, Option.bind_some]

/-- **With two backslashes there is no third one to find**, and the text behind it is out of range. -/
theorem convert_two (w : Windows) (szTemp : WString) {root volume : WString} (hroot : backslash ∉ root)
    (hvolume : backslash ∉ volume) (hlong : 23 < (backslash :: (root ++ backslash :: volume)).length) :
    convertFileObjectPathToDOSPath w szTemp (backslash :: (root ++ backslash :: volume)) = none := by
  rw [convert_long w szTemp rfl hlong]
  have hsecond : find (backslash :: (root ++ backslash :: volume)) backslash 1 = ([backslash] ++ root).length :=
    find_behind [backslash] hroot _
  have hbehind : (([backslash] ++ root).length : ℤ) + 1 = ((backslash :: (root ++ [backslash])).length : ℕ) := by
    push_cast [List.length_append, List.length_cons, List.length_nil]
    ring
  have hsplit : backslash :: (root ++ backslash :: volume) = backslash :: (root ++ [backslash]) ++ volume := by simp
  have hthird : find (backslash :: (root ++ backslash :: volume)) backslash
      ((backslash :: (root ++ [backslash])).length : ℕ) = npos := by
    rw [hsplit]
    exact find_absent _ hvolume
  rw [hsecond, hbehind, hthird]
  have hthrows : ∀ t : WString, substr t npos npos = none := fun _ => rfl
  rw [hthrows]
  cases substr (backslash :: (root ++ backslash :: volume)) 0 npos <;> rfl

/-! ## Paths that are converted once and for all -/

/-- A path that begins with a backslash has a device to take, or two backslashes. -/
theorem split_or_two (h : s.head? = some backslash) :
    (∃ device rest, DeviceSplit s device rest ∧ s.count backslash ≠ 2) ∨
      ∃ root volume, s = backslash :: (root ++ backslash :: volume) ∧ backslash ∉ root ∧ backslash ∉ volume ∧
        s.count backslash = 2 := by
  obtain ⟨name, rfl⟩ := List.head?_eq_some_iff.1 h
  by_cases hname : backslash ∈ name
  · obtain ⟨root, behind, rfl, hroot⟩ := List.eq_append_cons_of_mem hname
    by_cases hbehind : backslash ∈ behind
    · obtain ⟨volume, rest, rfl, hvolume⟩ := List.eq_append_cons_of_mem hbehind
      refine .inl ⟨_, _, .many hroot hvolume, ?_⟩
      simp [List.count_append]
      omega
    · refine .inr ⟨root, behind, rfl, hroot, hbehind, ?_⟩
      simp [List.count_append, List.count_eq_zero_of_not_mem hroot,
        List.count_eq_zero_of_not_mem hbehind]
  · refine .inl ⟨_, _, .one hname, ?_⟩
    simp [List.count_eq_zero_of_not_mem hname]

/-- The conversion returns, and converting what it returns changes nothing, whatever was on the stack. -/
def Settles (w : Windows) (s : WString) : Prop :=
  ∀ szTemp szTemp', ∃ t, convertFileObjectPathToDOSPath w szTemp s = some t ∧
    convertFileObjectPathToDOSPath w szTemp' t = some t

/-- What is converted gets a drive. -/
theorem convert_drive (hkeeps : w.KeepsDrive) (szTemp : WString) (hsplit : DeviceSplit s device rest)
    (hlong : 23 < s.length) (hfits : w.LongFormFits s) : ∃ letter rest', letter ≠ backslash ∧
      convertFileObjectPathToDOSPath w szTemp s = some (letter :: colon :: rest') := by
  obtain ⟨letter, rest', hne, hpath⟩ := longPath_eq hkeeps szTemp device rest (hfits device rest hsplit)
  exact ⟨letter, rest', hne, by rw [convert_split w szTemp hsplit hlong, hpath]⟩

/-- A path with two backslashes that is long enough. -/
def twoBackslashes : WString := backslash :: backslash :: List.replicate 22 0x61

theorem convert_twoBackslashes (w : Windows) (szTemp : WString) :
    convertFileObjectPathToDOSPath w szTemp twoBackslashes = none :=
  convert_two w szTemp (List.not_mem_nil) (by decide) (by decide)

/-- **A path is converted once and for all exactly if it is short, or does not begin with a backslash, or does not have
two backslashes** and its long form fits. -/
theorem settles_iff (w : Windows) (hkeeps : w.KeepsDrive) (s : WString) :
    Settles w s ↔ (s.head? ≠ some backslash ∨ s.length ≤ 23) ∨ s.count backslash ≠ 2 ∧ w.LongFormFits s := by
  by_cases hshort : s.head? ≠ some backslash ∨ s.length ≤ 23
  · refine iff_of_true (fun szTemp szTemp' => ⟨s, ?_, ?_⟩) (.inl hshort)
    · exact convert_short w szTemp hshort
    · exact convert_short w szTemp' hshort
  · rw [not_or, not_not, not_le] at hshort
    obtain ⟨hhead, hlong⟩ := hshort
    have hnot : ¬(s.head? ≠ some backslash ∨ s.length ≤ 23) := by
      rw [not_or, not_not, not_le]
      exact ⟨hhead, hlong⟩
    rw [or_iff_right hnot]
    rcases split_or_two hhead with ⟨device, rest, hsplit, hcount⟩ | ⟨root, volume, rfl, hroot, hvolume, hcount⟩
    · constructor
      · intro h
        refine ⟨hcount, fun device' rest' hsplit' htoo => ?_⟩
        -- what was on the stack may be anything
        obtain ⟨t, ht, hagain⟩ := h twoBackslashes []
        rw [convert_split w _ hsplit' hlong, longPath, htoo] at ht
        rw [← Option.some.inj ht, convert_twoBackslashes] at hagain
        cases hagain
      · rintro ⟨-, hfits⟩ szTemp szTemp'
        obtain ⟨letter, rest', hne, hpath⟩ := convert_drive hkeeps szTemp hsplit hlong hfits
        refine ⟨_, hpath, convert_short w szTemp' (.inl ?_)⟩
        rw [List.head?_cons, ne_eq, Option.some_inj]
        exact hne
    · refine iff_of_false (fun h => ?_) fun h => h.1 hcount
      obtain ⟨t, ht, -⟩ := h [] []
      rw [convert_two w [] hroot hvolume hlong] at ht
      cases ht

/-- One volume, and no long forms. -/
def oneVolume : Windows where
  queryDosDevice drive := if drive = lit "C:" then some (lit "\\Device\\HarddiskVolume1") else none
  getLongPathName _ := .failed

/-- A short name on it has a long form. -/
def longNames : Windows where
  queryDosDevice := oneVolume.queryDosDevice
  getLongPathName path :=
    if path = lit "C:\\PROGRA~1\\a.exe" then .written (lit "C:\\Program Files\\a.exe") else .failed

theorem longNames_keepsDrive : longNames.KeepsDrive := by
  intro letter rest path h
  simp only [longNames] at h
  split_ifs at h with hshort
  obtain rfl := LongPathName.written.inj h
  have hletter : letter = 0x43 := (List.cons.inj hshort).1
  rw [hletter]
  exact ⟨lit "\\Program Files\\a.exe", rfl⟩

theorem longNames_settles :
    convertFileObjectPathToDOSPath longNames [] (lit "\\Device\\HarddiskVolume1\\PROGRA~1\\a.exe") =
      some (lit "C:\\Program Files\\a.exe") ∧
    Settles longNames (lit "\\Device\\HarddiskVolume1\\PROGRA~1\\a.exe") := by
  refine ⟨by decide +kernel, (settles_iff longNames longNames_keepsDrive _).2 (.inr ⟨by decide, fun device rest _ h => ?_⟩)⟩
  simp only [longNames] at h
  split_ifs at h

/-- The name of a volume with nothing behind it. -/
theorem volume_unsettled : ¬Settles oneVolume (lit "\\Device\\HarddiskVolume123456") := by
  intro h
  obtain ⟨t, ht, -⟩ := h [] []
  have hnone : convertFileObjectPathToDOSPath oneVolume [] (lit "\\Device\\HarddiskVolume123456") = none := by
    decide
  rw [hnone] at ht
  cases ht

end ProcessManager

end CaptureHPC
