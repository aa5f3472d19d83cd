import CaptureHPC.Spec.Java

/-!
# Wide strings

A `std::wstring` of the client is a sequence of UTF-16 units.

* `units`: the units of a text.
* `ofUnits`: the text of the units, as it comes out of `WideCharToMultiByte` and the server's
  UTF-8 reader. A surrogate without its other half comes out as U+FFFD.
-/

namespace CaptureHPC

abbrev WChar := UInt16

abbrev WString := List WChar

/-- The units of a character. -/
def unitsOf (c : Char) : WString :=
  let n := c.toNat
  if n < 0x10000 then [UInt16.ofNat n]
  else [UInt16.ofNat (0xD800 + (n - 0x10000) / 1024), UInt16.ofNat (0xDC00 + (n - 0x10000) % 1024)]

def units (cs : List Char) : WString := cs.flatMap unitsOf

def isHigh (w : WChar) : Bool := 0xD800 ≤ w.toNat && w.toNat < 0xDC00

def isLow (w : WChar) : Bool := 0xDC00 ≤ w.toNat && w.toNat < 0xE000

/-- The character of a surrogate pair. -/
def charOfPair (hi lo : WChar) : Char :=
  charOf (0x10000 + (hi.toNat - 0xD800) * 1024 + (lo.toNat - 0xDC00))

def ofUnits : WString → List Char
  | [] => []
  | w :: ws =>
    match ws with
    | v :: r => if isHigh w && isLow v then charOfPair w v :: ofUnits r else charOf w.toNat :: ofUnits (v :: r)
    | [] => [charOf w.toNat]

/-- Every surrogate has its other half. -/
def wellFormed : WString → Bool
  | [] => true
  | w :: ws =>
    match ws with
    | v :: r =>
      if isHigh w then isLow v && wellFormed r else !isLow w && wellFormed (v :: r)
    | [] => !isHigh w && !isLow w

theorem units_nil : units [] = [] := rfl

theorem units_cons (c : Char) (cs : List Char) : units (c :: cs) = unitsOf c ++ units cs := List.flatMap_cons

theorem units_append (as bs : List Char) : units (as ++ bs) = units as ++ units bs := List.flatMap_append

theorem unitsOf_bmp {c : Char} (h : c.toNat < 0x10000) : unitsOf c = [UInt16.ofNat c.toNat] := by
  unfold unitsOf
  rw [if_pos h]

theorem toNat_ofNat {n : ℕ} (h : n < 0x10000) : (UInt16.ofNat n).toNat = n := UInt16.toNat_ofNat_of_lt' h

theorem charOf_unit {c : Char} (h : c.toNat < 0x10000) : charOf (UInt16.ofNat c.toNat).toNat = c := by
  rw [toNat_ofNat h, charOf_toNat]

/-- A character is no surrogate. -/
theorem not_surrogate (c : Char) : c.toNat < 0xD800 ∨ 0xE000 ≤ c.toNat ∧ c.toNat < 0x110000 := by
  have h : c.toNat.isValidChar := c.valid
  rcases h with h | h
  · exact .inl h
  · exact .inr ⟨by omega, h.2⟩

theorem unit_not_surrogate {c : Char} (h : c.toNat < 0x10000) :
    isHigh (UInt16.ofNat c.toNat) = false ∧ isLow (UInt16.ofNat c.toNat) = false := by
  have hc := not_surrogate c
  unfold isHigh isLow
  rw [toNat_ofNat h]
  constructor <;> simp <;> omega

/-- A unit that is no high surrogate is read by itself. -/
theorem ofUnits_cons {w : WChar} (h : isHigh w = false) (ws : WString) :
    ofUnits (w :: ws) = charOf w.toNat :: ofUnits ws := by
  cases ws with
  | nil => rfl
  | cons v r => simp [ofUnits, h]

/-- The character of a pair, and what follows it. -/
theorem unitsOf_astral {c : Char} (h : ¬ c.toNat < 0x10000) (ws : WString) :
    ofUnits (unitsOf c ++ ws) = c :: ofUnits ws ∧ wellFormed (unitsOf c ++ ws) = wellFormed ws := by
  have hc := not_surrogate c
  set n := c.toNat with hn
  have hhi := toNat_ofNat (n := 0xD800 + (n - 0x10000) / 1024) (by omega)
  have hlo := toNat_ofNat (n := 0xDC00 + (n - 0x10000) % 1024) (by omega)
  have hH : isHigh (UInt16.ofNat (0xD800 + (n - 0x10000) / 1024)) = true := by
    unfold isHigh
    rw [hhi]
    simp
    omega
  have hL : isLow (UInt16.ofNat (0xDC00 + (n - 0x10000) % 1024)) = true := by
    unfold isLow
    rw [hlo]
    simp
    omega
  have hpair : charOfPair (UInt16.ofNat (0xD800 + (n - 0x10000) / 1024))
      (UInt16.ofNat (0xDC00 + (n - 0x10000) % 1024)) = c := by
    unfold charOfPair
    rw [hhi, hlo, show 0x10000 + (0xD800 + (n - 0x10000) / 1024 - 0xD800) * 1024 +
      (0xDC00 + (n - 0x10000) % 1024 - 0xDC00) = n by omega, hn, charOf_toNat]
  unfold unitsOf
  simp only [← hn, if_neg h, List.cons_append, List.nil_append]
  constructor
  · rw [ofUnits.eq_def]
    simp only [hH, hL, Bool.and_self, if_true, hpair]
  · rw [wellFormed.eq_def]
    simp only [hH, hL, Bool.true_and, if_true]

/-- **The units of a text are read back.** -/
theorem ofUnits_units_append (cs : List Char) (ws : WString) : ofUnits (units cs ++ ws) = cs ++ ofUnits ws := by
  induction cs with
  | nil => rfl
  | cons c cs ih =>
    rw [units_cons, List.append_assoc, List.cons_append]
    by_cases h : c.toNat < 0x10000
    · rw [unitsOf_bmp h, List.singleton_append, ofUnits_cons (unit_not_surrogate h).1, charOf_unit h, ih]
    · rw [(unitsOf_astral h _).1, ih]

theorem ofUnits_units (cs : List Char) : ofUnits (units cs) = cs := by
  have h := ofUnits_units_append cs []
  rw [List.append_nil] at h
  rw [h]
  exact List.append_nil cs

/-- Reading a text in two parts, if the second part does not start with a low surrogate. -/
theorem ofUnits_append (a : WString) {b : WString} (hb : ∀ w ∈ b.head?, isLow w = false) :
    ofUnits (a ++ b) = ofUnits a ++ ofUnits b := by
  induction a using ofUnits.induct with
  | case1 => rfl
  | case2 w v r hpair ih =>
    rw [List.cons_append, List.cons_append, ofUnits, if_pos hpair, ih, ofUnits, if_pos hpair, List.cons_append]
  | case3 w v r hpair ih =>
    rw [List.cons_append, List.cons_append, ofUnits, if_neg hpair, ← List.cons_append, ih, ofUnits, if_neg hpair,
      List.cons_append]
  | case4 w =>
    cases b with
    | nil => rfl
    | cons v r =>
      have hpair : ¬ (isHigh w && isLow v) = true := by rw [hb v rfl, Bool.and_false]; decide
      rw [List.singleton_append, ofUnits, if_neg hpair]
      rfl

/-- A unit by itself: it is its character unless it is a surrogate. -/
theorem unitsOf_charOf (w : WChar) : unitsOf (charOf w.toNat) = [w] ↔ isHigh w = false ∧ isLow w = false := by
  have hlt : w.toNat < 0x10000 := w.toNat_lt
  by_cases hw : w.toNat < 0xD800 ∨ 0xE000 ≤ w.toNat
  · refine iff_of_true ?_ ?_
    · have hvalid : w.toNat.isValidChar := by
        rcases hw with hw | hw
        · exact .inl hw
        · exact .inr ⟨by omega, by omega⟩
      have hnat : (charOf w.toNat).toNat = w.toNat := by
        unfold charOf
        rw [if_pos hvalid, Char.toNat_ofNat, if_pos hvalid]
      rw [unitsOf_bmp (by rw [hnat]; exact hlt), hnat, UInt16.ofNat_toNat]
    · unfold isHigh isLow
      constructor <;> simp <;> omega
  · refine iff_of_false (fun h => ?_) ?_
    · have hvalid : ¬ w.toNat.isValidChar := by
        rintro (h | ⟨h, -⟩) <;> omega
      unfold charOf at h
      rw [if_neg hvalid] at h
      obtain rfl : UInt16.ofNat 0xFFFD = w := List.head_eq_of_cons_eq h
      exact hw (by decide)
    · unfold isHigh isLow
      simp
      omega

/-- A pair of surrogates is its character. -/
theorem unitsOf_charOfPair {hi lo : WChar} (hH : isHigh hi = true) (hL : isLow lo = true) :
    unitsOf (charOfPair hi lo) = [hi, lo] := by
  unfold isHigh at hH
  unfold isLow at hL
  simp at hH hL
  have hvalid : (0x10000 + (hi.toNat - 0xD800) * 1024 + (lo.toNat - 0xDC00)).isValidChar :=
    .inr ⟨by omega, by omega⟩
  have hnat : (charOfPair hi lo).toNat = 0x10000 + (hi.toNat - 0xD800) * 1024 + (lo.toNat - 0xDC00) := by
    unfold charOfPair charOf
    rw [if_pos hvalid, Char.toNat_ofNat, if_pos hvalid]
  unfold unitsOf
  simp only [hnat]
  rw [if_neg (by omega), show 0xD800 + (0x10000 + (hi.toNat - 0xD800) * 1024 + (lo.toNat - 0xDC00) - 0x10000) / 1024 =
      hi.toNat by omega, show 0xDC00 + (0x10000 + (hi.toNat - 0xD800) * 1024 + (lo.toNat - 0xDC00) - 0x10000) % 1024 =
      lo.toNat by omega, UInt16.ofNat_toNat, UInt16.ofNat_toNat]

theorem unitsOf_ne_nil (c : Char) : unitsOf c ≠ [] := by
  unfold unitsOf
  dsimp only
  split_ifs <;> exact List.cons_ne_nil _ _

/-- A surrogate read by itself does not come back. -/
theorem units_ne_surrogate {w : WChar} (h : ¬ (isHigh w = false ∧ isLow w = false)) (cs : List Char) (ws : WString) :
    units (charOf w.toNat :: cs) ≠ w :: ws := by
  intro heq
  have hvalid : ¬ w.toNat.isValidChar := by
    intro hv
    apply h
    unfold isHigh isLow
    rcases hv with hv | ⟨hv, -⟩
    · constructor <;> simp <;> omega
    · constructor <;> simp <;> omega
  have hrep : charOf w.toNat = replacement := by
    unfold charOf
    rw [if_neg hvalid]
  rw [units_cons, hrep] at heq
  obtain rfl : UInt16.ofNat 0xFFFD = w := List.head_eq_of_cons_eq heq
  exact h (by decide)

/-- **A string comes back exactly if it is well-formed.** -/
theorem units_ofUnits_iff (ws : WString) : units (ofUnits ws) = ws ↔ wellFormed ws = true := by
  induction ws using ofUnits.induct with
  | case1 => exact iff_of_true rfl rfl
  | case2 w v r hpair ih =>
    rw [Bool.and_eq_true] at hpair
    rw [ofUnits, if_pos (by rw [hpair.1, hpair.2]; rfl), units_cons, unitsOf_charOfPair hpair.1 hpair.2, wellFormed,
      if_pos hpair.1, hpair.2, Bool.true_and, ← ih]
    simp
  | case3 w v r hpair ih =>
    rw [ofUnits, if_neg hpair, wellFormed]
    by_cases hH : isHigh w = true
    · refine iff_of_false (units_ne_surrogate (by simp [hH]) _ _) ?_
      rw [Bool.and_eq_true, not_and] at hpair
      simp [hH, hpair hH]
    · by_cases hL : isLow w = true
      · refine iff_of_false (units_ne_surrogate (by simp [hL]) _ _) ?_
        simp [hH, hL]
      · rw [Bool.not_eq_true] at hH hL
        rw [units_cons, (unitsOf_charOf w).2 ⟨hH, hL⟩, List.singleton_append, List.cons.injEq, ih]
        simp [hH, hL]
  | case4 w =>
    by_cases h : isHigh w = false ∧ isLow w = false
    · refine iff_of_true ?_ (by simp [wellFormed, h.1, h.2])
      rw [ofUnits, units_cons, (unitsOf_charOf w).2 h]
      rfl
    · refine iff_of_false (units_ne_surrogate h [] []) ?_
      rw [wellFormed]
      simp only [Bool.and_eq_true, Bool.not_eq_true']
      exact h

end CaptureHPC
