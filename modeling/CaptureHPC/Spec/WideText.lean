import CaptureHPC.Spec.ClientXml

/-!
# Positions in wide strings

The functions of `std::wstring` that the monitors convert paths with. A `size_t` is given by its signed value:
`npos`, the largest one, is -1, and sums and differences wrap around as those of a `size_t` do.
-/

namespace CaptureHPC.Cpp

def npos : ℤ := -1

def backslash : WChar := 0x5C

def colon : WChar := 0x3A

def dot : WChar := 0x2E

/-- `s.find(c, pos)`. -/
def find (s : WString) (c : WChar) (pos : ℤ) : ℤ :=
  if pos < 0 then npos
  else match (s.drop pos.toNat).idxOf? c with
    | some i => pos + i
    | none => npos

/-- `s.find_last_of(c)`. -/
def findLastOf (s : WString) (c : WChar) : ℤ :=
  match s.reverse.idxOf? c with
  | some i => (s.length : ℤ) - 1 - i
  | none => npos

/-- `s.substr(pos, count)`; no result when it throws `out_of_range`. -/
def substr (s : WString) (pos count : ℤ) : Option WString :=
  if 0 ≤ pos ∧ pos ≤ s.length then
    some (if count < 0 then s.drop pos.toNat else (s.drop pos.toNat).take count.toNat)
  else none

/-- `s.rfind(t, 0)`: only at the start. -/
def rfindStart (s t : WString) : ℤ := if t <+: s then 0 else npos

/-- `s.replace(pos, len, t)`. -/
def replace (s : WString) (pos len : ℕ) (t : WString) : WString := s.take pos ++ t ++ s.drop (pos + len)

/-- The text up to the first zero, as `c_str()` is read. -/
def cString (s : WString) : WString := s.takeWhile (· ≠ 0)

variable {s t : WString} {c : WChar}

theorem idxOf?_append (h : c ∉ s) (t : WString) : (s ++ c :: t).idxOf? c = some s.length := by
  induction s with
  | nil => simp [List.idxOf?_cons]
  | cons a s ih =>
    rw [List.mem_cons, not_or] at h
    have hne : (a == c) = false := beq_false_of_ne (Ne.symm h.1)
    simp [List.idxOf?_cons, hne, ih h.2]

/-- The first place of a character behind some text, with the text between them. -/
theorem find_behind (pre : WString) (h : c ∉ s) (t : WString) :
    find (pre ++ (s ++ c :: t)) c pre.length = (pre ++ s).length := by
  rw [find, if_neg (by omega), Int.toNat_natCast, List.drop_left, idxOf?_append h, List.length_append]
  exact (Int.natCast_add _ _).symm

theorem find_absent (pre : WString) (h : c ∉ s) : find (pre ++ s) c pre.length = npos := by
  rw [find, if_neg (by omega), Int.toNat_natCast, List.drop_left, List.idxOf?_eq_none_iff.2 h]

/-- The first place of a character, with the text in front of it. -/
theorem find_append (h : c ∉ s) (t : WString) : find (s ++ c :: t) c 0 = s.length := find_behind [] h t

theorem find_eq_zero : find s c 0 = 0 ↔ s.head? = some c := by
  by_cases h : c ∈ s
  · obtain ⟨as, bs, rfl, has⟩ := List.eq_append_cons_of_mem h
    rw [find_append has]
    cases as with
    | nil => simp
    | cons a as =>
      rw [List.mem_cons, not_or] at has
      have hne : a ≠ c := Ne.symm has.1
      simp [hne]
      omega
  · have habsent := find_absent [] h
    rw [List.nil_append] at habsent
    refine iff_of_false ?_ fun hhead => h (List.mem_of_mem_head? hhead)
    show ¬find s c ((0 : ℕ) : ℤ) = 0
    rw [List.length_nil] at habsent
    rw [habsent]
    decide

/-- The last place of a character, with the text behind it. -/
theorem findLastOf_append (s : WString) (h : c ∉ t) : findLastOf (s ++ c :: t) c = s.length := by
  have hfind := find_append (s := t.reverse) (by simpa using h) s.reverse
  rw [find, if_neg (by decide)] at hfind
  rw [findLastOf, List.reverse_append, List.reverse_cons, List.append_assoc, List.singleton_append]
  cases hidx : (t.reverse ++ c :: s.reverse).idxOf? c with
  | none =>
    simp [hidx, npos] at hfind
  | some i =>
    simp [hidx] at hfind
    simp [hfind]
    omega

theorem substr_to_end (s t : WString) : substr (s ++ t) s.length npos = some t := by
  rw [substr, if_pos (by simp), if_pos (by decide)]
  simp

theorem substr_append (s t u : WString) : substr (s ++ (t ++ u)) s.length t.length = some t := by
  have hin : (0 : ℤ) ≤ s.length ∧ (s.length : ℤ) ≤ (s ++ (t ++ u)).length := by
    rw [List.length_append]
    omega
  rw [substr, if_pos hin, if_neg (by omega)]
  simp

end CaptureHPC.Cpp
