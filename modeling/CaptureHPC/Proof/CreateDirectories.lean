import CaptureHPC.Spec.CreateDirectories

/-!
# Which directories are created

* `length_cat_le`: the length of a string stays within its `MaximumLength`.
* `Scanned.enter`: at a separator, `totalDirectory` is the root and what is scanned exactly if both fit and no zero is
  among it.
* `createsParents_of_fits`: so the parents are created if the sum of the maximal lengths does not wrap around, and no
  zero is in the directory.
* `createAllDirectories_iff`: the exact condition.
-/

namespace CaptureHPC.Driver

open Cpp

/-! ## Strings -/

namespace UnicodeString

variable {s : UnicodeString} {t : WString}

/-- How many characters there is room for. -/
def capacity (s : UnicodeString) : ℕ := s.maximumLength.toNat / 2

/-- **Appending does not exceed the room.** -/
theorem length_cat_le (h : s.text.length ≤ s.capacity) (t : WString) : (s.cat t).text.length ≤ s.capacity := by
  unfold cat
  simp only [List.length_append, List.length_take]
  unfold capacity at h ⊢
  omega

theorem cat_of_fits (h : s.text.length + t.length ≤ s.capacity) : (s.cat t).text = s.text ++ t := by
  unfold cat
  rw [List.take_of_length_le]
  unfold capacity at h
  omega

theorem length_cat_le_add (s : UnicodeString) (t : WString) : (s.cat t).text.length ≤ s.text.length + t.length := by
  unfold cat
  simp only [List.length_append, List.length_take]
  omega

/-- A text of full length is appended as a whole. -/
theorem cat_of_length (h : (s.cat t).text.length = s.text.length + t.length) : (s.cat t).text = s.text ++ t := by
  unfold cat at h ⊢
  simp only [List.length_append, List.length_take] at h
  rw [List.take_of_length_le]
  omega

end UnicodeString

theorem length_cString_le (t : WString) : (cString t).length ≤ t.length := (List.takeWhile_prefix _).length_le

theorem cString_eq_self {t : WString} : cString t = t ↔ 0 ∉ t := by
  unfold cString
  rw [List.takeWhile_eq_self_iff]
  constructor
  · intro h hzero
    exact of_decide_eq_true (h 0 hzero) rfl
  · intro h c hc
    exact decide_eq_true fun hzero => h (hzero ▸ hc)

theorem cString_of_length {t : WString} (h : (cString t).length = t.length) : cString t = t :=
  (List.takeWhile_prefix _).eq_of_length h

namespace DirectoryScan

variable {root dir : UnicodeString} {s : DirectoryScan} {i : ℕ}

/-! ## One separator -/

/-- The room of `totalDirectory`. -/
def room (root dir : UnicodeString) : ℕ := (start root dir).totalDirectory.capacity

/-- The root and the directory up to a place fit, and there is no zero up to it. -/
def Fits (root dir : UnicodeString) (i : ℕ) : Prop := root.text.length + i ≤ room root dir ∧ 0 ∉ dir.text.take i

/-- `totalDirectory` is the root and what is scanned of the directory. -/
def Exact (root dir : UnicodeString) (s : DirectoryScan) : Prop :=
  s.totalDirectory.text = root.text ++ dir.text.take s.prevDirPosition

/-- What is kept in the loop. -/
structure Scanned (root dir : UnicodeString) (s : DirectoryScan) : Prop where
  capacity : s.totalDirectory.capacity = room root dir
  length_le : s.totalDirectory.text.length ≤ room root dir
  length_le_add : s.totalDirectory.text.length ≤ root.text.length + s.prevDirPosition
  exact_iff : s.Exact root dir ↔ Fits root dir s.prevDirPosition

theorem Scanned.start (root dir : UnicodeString) : Scanned root dir (start root dir) := by
  set empty : UnicodeString := { maximumLength := root.maximumLength + dir.maximumLength + 2 }
  have htotal : (DirectoryScan.start root dir).totalDirectory = empty.cat root.text := rfl
  have hle : (empty.cat root.text).text.length ≤ room root dir :=
    UnicodeString.length_cat_le (s := empty) (Nat.zero_le _) root.text
  have hadd : (empty.cat root.text).text.length ≤ 0 + root.text.length := empty.length_cat_le_add root.text
  refine ⟨rfl, hle, by rw [htotal]; omega, ?_⟩
  show (empty.cat root.text).text = root.text ++ dir.text.take 0 ↔ _
  unfold Fits
  rw [List.take_zero, List.append_nil]
  constructor
  · intro hexact
    rw [hexact] at hle
    exact ⟨hle, List.not_mem_nil⟩
  · rintro ⟨hfits, -⟩
    have hroom : empty.text.length + root.text.length ≤ empty.capacity := by
      show 0 + root.text.length ≤ room root dir
      omega
    exact (UnicodeString.cat_of_fits hroom).trans (List.nil_append _)

theorem Fits.mono {j : ℕ} (h : Fits root dir i) (hj : j ≤ i) : Fits root dir j := by
  refine ⟨by have := h.1; omega, fun hzero => h.2 ?_⟩
  exact (List.take_subset_take_left _ hj) hzero

/-- **At a separator**, the text is still exact if the part fits and has no zero, and not otherwise. -/
theorem Scanned.enter (h : Scanned root dir s) (hprev : s.prevDirPosition ≤ i) (hi : i ≤ dir.text.length) :
    Scanned root dir (s.enter dir i) := by
  set part := (dir.text.drop s.prevDirPosition).take (i - s.prevDirPosition) with hpart
  have htotal : (s.enter dir i).totalDirectory = s.totalDirectory.cat (cString part) := rfl
  have hlength : part.length = i - s.prevDirPosition := by
    rw [hpart, List.length_take, List.length_drop]
    omega
  have htake : dir.text.take i = dir.text.take s.prevDirPosition ++ part := by
    rw [hpart, ← List.take_add, Nat.add_sub_cancel' hprev]
  have hle : (s.totalDirectory.cat (cString part)).text.length ≤ room root dir := by
    rw [← h.capacity]
    exact UnicodeString.length_cat_le (h.capacity ▸ h.length_le) _
  have hadd := s.totalDirectory.length_cat_le_add (cString part)
  have hshort := length_cString_le part
  have hbefore := h.length_le_add
  refine ⟨h.capacity, hle, ?_, ?_⟩
  · show (s.totalDirectory.cat (cString part)).text.length ≤ root.text.length + i
    omega
  show (s.totalDirectory.cat (cString part)).text = root.text ++ dir.text.take i ↔ Fits root dir i
  constructor
  · intro hexact
    -- no character can be missing: neither of what was there nor of the part
    have hfull : (s.totalDirectory.cat (cString part)).text.length = root.text.length + i := by
      rw [hexact, List.length_append, List.length_take, Nat.min_eq_left hi]
    have hstring : cString part = part := cString_of_length (by omega)
    rw [hstring] at hexact hfull hadd hle
    have hcat : (s.totalDirectory.cat part).text = s.totalDirectory.text ++ part :=
      UnicodeString.cat_of_length (by omega)
    rw [hcat, htake, ← List.append_assoc] at hexact
    have hold : s.Exact root dir := List.append_cancel_right hexact
    have hfits := h.exact_iff.1 hold
    refine ⟨by omega, ?_⟩
    rw [htake, List.mem_append, not_or]
    exact ⟨hfits.2, cString_eq_self.1 hstring⟩
  · intro hfits
    have hold : s.totalDirectory.text = root.text ++ dir.text.take s.prevDirPosition :=
      h.exact_iff.2 (hfits.mono hprev)
    have hzero := hfits.2
    rw [htake, List.mem_append, not_or] at hzero
    rw [cString_eq_self.2 hzero.2, UnicodeString.cat_of_fits, hold, htake, List.append_assoc]
    rw [h.capacity, hlength]
    have hroom := hfits.1
    omega

/-! ## The loop -/

/-- The separators among the first places. -/
def separators (dir : UnicodeString) (k : ℕ) : List ℕ := (List.range k).filter (isSeparator dir)

/-- The last separator among the first places, or the start. -/
def lastSeparator (dir : UnicodeString) (k : ℕ) : ℕ := (separators dir k).getLastD 0

/-- What stands after the first rounds of the loop when every allocation succeeds. -/
def after (root dir : UnicodeString) (k : ℕ) : DirectoryScan :=
  scan (fun _ => true) dir (List.range k) (start root dir)

theorem separators_succ (dir : UnicodeString) (k : ℕ) :
    separators dir (k + 1) = separators dir k ++ if isSeparator dir k then [k] else [] := by
  unfold separators
  rw [List.range_succ, List.filter_append, List.filter_singleton]
  cases isSeparator dir k <;> rfl

theorem scan_append (is js : List ℕ) (s : DirectoryScan) :
    scan (fun _ => true) dir (is ++ js) s = scan (fun _ => true) dir js (scan (fun _ => true) dir is s) := by
  induction is generalizing s with
  | nil => rfl
  | cons i is ih =>
    rw [List.cons_append, scan, scan]
    cases isSeparator dir i with
    | true => exact ih _
    | false => exact ih _

/-- One round. -/
theorem after_succ (root dir : UnicodeString) (k : ℕ) :
    after root dir (k + 1) = if isSeparator dir k then (after root dir k).enter dir k else after root dir k := by
  unfold after
  rw [List.range_succ, scan_append, scan]
  cases isSeparator dir k <;> rfl

theorem lastSeparator_succ (dir : UnicodeString) (k : ℕ) :
    lastSeparator dir (k + 1) = if isSeparator dir k then k else lastSeparator dir k := by
  unfold lastSeparator
  rw [separators_succ]
  split_ifs
  · rw [List.getLastD_concat]
  · rw [List.append_nil]

theorem lastSeparator_le (dir : UnicodeString) (k : ℕ) : lastSeparator dir k ≤ k := by
  induction k with
  | zero => exact le_rfl
  | succ k ih =>
    rw [lastSeparator_succ]
    split_ifs <;> omega

theorem lastSeparator_mono (dir : UnicodeString) {j k : ℕ} (h : j ≤ k) : lastSeparator dir j ≤ lastSeparator dir k := by
  obtain ⟨d, rfl⟩ := Nat.exists_eq_add_of_le h
  induction d with
  | zero => exact le_rfl
  | succ d ih =>
    have hle := lastSeparator_le dir (j + d)
    have hold := ih (Nat.le_add_right j d)
    rw [← Nat.add_assoc, lastSeparator_succ]
    split_ifs
    · omega
    · exact hold

/-- **The invariant of the loop.** -/
theorem after_scanned (root : UnicodeString) {k : ℕ} (hk : k ≤ dir.text.length) :
    Scanned root dir (after root dir k) ∧ (after root dir k).prevDirPosition = lastSeparator dir k := by
  induction k with
  | zero => exact ⟨Scanned.start root dir, rfl⟩
  | succ k ih =>
    obtain ⟨hscanned, hprev⟩ := ih (by omega)
    rw [after_succ, lastSeparator_succ]
    split_ifs
    · refine ⟨hscanned.enter ?_ (by omega), rfl⟩
      rw [hprev]
      exact lastSeparator_le dir k
    · exact ⟨hscanned, hprev⟩

/-- **What is created** is what stands in front of the separators, if this fits and has no zero. -/
theorem after_created {k : ℕ} (hk : k ≤ dir.text.length) (h : Fits root dir (lastSeparator dir k)) :
    (after root dir k).created = (separators dir k).map fun i => root.text ++ dir.text.take i := by
  induction k with
  | zero => rfl
  | succ k ih =>
    have hold := ih (by omega) (h.mono (lastSeparator_mono dir (Nat.le_succ k)))
    obtain ⟨hscanned, hprev⟩ := after_scanned root hk
    have hexact := hscanned.exact_iff.2 (hprev ▸ h)
    unfold Exact at hexact
    rw [hprev, lastSeparator_succ, after_succ] at hexact
    rw [after_succ, separators_succ]
    by_cases hsep : isSeparator dir k = true
    · simp only [hsep, if_true] at hexact ⊢
      rw [List.map_append, ← hold, List.map_singleton, ← hexact]
      rfl
    · simp only [hsep, Bool.false_eq_true, if_false, List.append_nil]
      exact hold

end DirectoryScan

open DirectoryScan

/-- The root with each part of the directory in front of a backslash is created, in increasing order; in each round
`totalDirectory` is the root with what is scanned up to a backslash, and stays within its `MaximumLength`. -/
def CreatesParents (root dir : UnicodeString) : Prop :=
  createAllDirectories (fun _ => true) root dir =
    (separators dir dir.text.length).map (fun i => root.text ++ dir.text.take i) ∧
  ∀ k ≤ dir.text.length,
    (after root dir k).totalDirectory.text = root.text ++ dir.text.take (lastSeparator dir k) ∧
    2 * (after root dir k).totalDirectory.text.length ≤ (after root dir k).totalDirectory.maximumLength.toNat

theorem createsParents_iff (root dir : UnicodeString) :
    CreatesParents root dir ↔ Fits root dir (lastSeparator dir dir.text.length) := by
  constructor
  · rintro ⟨-, hrounds⟩
    obtain ⟨hscanned, hprev⟩ := after_scanned root (le_refl dir.text.length)
    rw [← hprev, ← hscanned.exact_iff, Exact, hprev]
    exact (hrounds dir.text.length le_rfl).1
  · intro h
    refine ⟨after_created le_rfl h, fun k hk => ?_⟩
    obtain ⟨hscanned, hprev⟩ := after_scanned root hk
    have hexact := hscanned.exact_iff.2 (hprev ▸ h.mono (lastSeparator_mono _ hk))
    refine ⟨hprev ▸ hexact, ?_⟩
    have hle := hscanned.capacity ▸ hscanned.length_le
    unfold UnicodeString.capacity at hle
    omega

/-- **Without a wraparound and without zeros** the parents are created. -/
theorem createsParents_of_fits (root dir : ValidString)
    (h : root.maximumLength.toNat + dir.maximumLength.toNat + 2 < 2 ^ 16) (hzero : 0 ∉ dir.text) :
    CreatesParents root.toUnicodeString dir.toUnicodeString := by
  rw [createsParents_iff]
  constructor
  · have hroot := root.fits
    have hdir := dir.fits
    have hlast := lastSeparator_le dir.toUnicodeString dir.text.length
    show _ ≤ (root.maximumLength + dir.maximumLength + 2).toNat / 2
    have htwo : (2 : UInt16).toNat = 2 := rfl
    rw [UInt16.toNat_add, UInt16.toNat_add, htwo]
    omega
  · exact fun hmem => hzero (List.mem_of_mem_take hmem)

/-- **The parents are created exactly if** the root and the directory up to its last backslash fit into
`totalDirectory`, and there is no zero in front of that backslash. -/
theorem createAllDirectories_iff (root dir : ValidString) :
    CreatesParents root.toUnicodeString dir.toUnicodeString ↔
      root.text.length + lastSeparator dir.toUnicodeString dir.text.length ≤
        (root.maximumLength + dir.maximumLength + 2).toNat / 2 ∧
      0 ∉ dir.text.take (lastSeparator dir.toUnicodeString dir.text.length) :=
  createsParents_iff root.toUnicodeString dir.toUnicodeString

def logsRoot : ValidString where
  text := lit "\\??\\C:\\logs"
  maximumLength := 100
  even := by decide
  fits := by decide

/-- With this maximal length that of `totalDirectory` is 0. -/
def longDirectory : ValidString where
  text := lit "\\C\\a\\"
  maximumLength := 65434
  even := by decide
  fits := by decide

/-- A string that is counted may have a zero. -/
def zeroDirectory : ValidString where
  text := lit "\\C" ++ 0 :: lit "a\\"
  maximumLength := 100
  even := by decide
  fits := by decide

/-- The root and the directories are cut off, by the wraparound or by the zero. -/
theorem cutOff_created :
    (logsRoot.maximumLength.toNat + longDirectory.maximumLength.toNat < 2 ^ 16 ∧
      ¬CreatesParents logsRoot.toUnicodeString longDirectory.toUnicodeString) ∧
    (logsRoot.maximumLength.toNat + zeroDirectory.maximumLength.toNat < 2 ^ 16 ∧
      ¬CreatesParents logsRoot.toUnicodeString zeroDirectory.toUnicodeString) := by
  refine ⟨⟨by decide, fun h => ?_⟩, ⟨by decide, fun h => ?_⟩⟩
  · have hcreated := h.1
    revert hcreated
    decide
  · have hcreated := h.1
    revert hcreated
    decide

end CaptureHPC.Driver
