import Mathlib

/-!
# Binary floating point

The values of the 64-bit format with their exact magnitudes. A magnitude is rounded to the nearest one
(`nearest`), of two as near to the one with the even last place.

* `halfEven_mono`, `nearest_mono`: rounding keeps the order.
* `toInt_scale_le`: so a value that is not less than another is no less when both are scaled and cut off
  to an integer.
-/

namespace Lib

/-- The nearest number, of two the even one. -/
def halfEven (q : ℚ) : ℕ :=
  if q - ⌊q⌋₊ < 1 / 2 then ⌊q⌋₊ else if 1 / 2 < q - ⌊q⌋₊ then ⌊q⌋₊ + 1 else ⌊q⌋₊ + ⌊q⌋₊ % 2

theorem halfEven_error {q : ℚ} (hq : 0 ≤ q) : |(halfEven q : ℚ) - q| ≤ 1 / 2 := by
  have hfloor := Nat.floor_le hq
  have hceil := Nat.lt_floor_add_one q
  have hlast : ((⌊q⌋₊ % 2 : ℕ) : ℚ) ≤ 1 := by exact_mod_cast Nat.le_of_lt_succ (Nat.mod_lt _ two_pos)
  have hlast' : (0 : ℚ) ≤ ((⌊q⌋₊ % 2 : ℕ) : ℚ) := Nat.cast_nonneg _
  unfold halfEven
  rw [abs_le]
  split_ifs with hless hmore
  · constructor <;> linarith
  · push_cast
    constructor <;> linarith
  · push_cast at hlast hlast' ⊢
    constructor <;> linarith

theorem halfEven_natCast (n : ℕ) : halfEven n = n := by simp [halfEven]

/-- **Rounding keeps the order.** -/
theorem halfEven_mono {p q : ℚ} (hp : 0 ≤ p) (h : p ≤ q) : halfEven p ≤ halfEven q := by
  -- two numbers in the wrong order are both half a step away, so their numbers are equal
  by_contra hlt
  have hstep : (halfEven q : ℚ) + 1 ≤ halfEven p := by exact_mod_cast Nat.succ_le_of_lt (not_le.1 hlt)
  have hperr := (abs_le.1 (halfEven_error hp)).2
  have hqerr := (abs_le.1 (halfEven_error (hp.trans h))).1
  obtain rfl : p = q := by linarith
  exact hlt le_rfl

/-- The exponent of the last place. -/
def lastPlace (q : ℚ) : ℤ := max (Int.log 2 q) (-1022) - 52

def nearest (q : ℚ) : ℚ := halfEven (q / 2 ^ lastPlace q) * 2 ^ lastPlace q

theorem nearest_nonneg (q : ℚ) : 0 ≤ nearest q := by
  unfold nearest
  positivity

@[simp] theorem nearest_zero : nearest 0 = 0 := by simp [nearest, halfEven]

/-- A power of two is a number of last places. -/
theorem zpow_eq_mul {k l : ℤ} (h : l ≤ k) : ∃ n : ℕ, (2 : ℚ) ^ k = n * 2 ^ l := by
  obtain ⟨n, hn⟩ := Int.eq_ofNat_of_zero_le (sub_nonneg.2 h)
  refine ⟨2 ^ n, ?_⟩
  rw [show k = n + l by omega, zpow_add₀ two_ne_zero, zpow_natCast]
  norm_num

/-- A power of two above the number is above what it is rounded to. -/
theorem nearest_le_zpow {q : ℚ} (hq : 0 < q) {k : ℤ} (hk : -1022 ≤ k) (h : q ≤ 2 ^ k) : nearest q ≤ 2 ^ k := by
  have hlast : lastPlace q ≤ k := by
    have hlog : Int.log 2 q ≤ k := by
      rw [← Int.log_zpow (R := ℚ) one_lt_two k]
      exact Int.log_mono_right hq (by exact_mod_cast h)
    unfold lastPlace
    omega
  obtain ⟨n, hpow⟩ := zpow_eq_mul hlast
  have hpos : (0 : ℚ) < 2 ^ lastPlace q := by positivity
  have hscaled : q / 2 ^ lastPlace q ≤ n := by rwa [div_le_iff₀ hpos, ← hpow]
  have hround := halfEven_mono (by positivity) hscaled
  rw [halfEven_natCast] at hround
  rw [nearest, hpow]
  gcongr

/-- A power of two below the number is below what it is rounded to. -/
theorem zpow_le_nearest {q : ℚ} {k : ℤ} (hk : lastPlace q ≤ k) (h : 2 ^ k ≤ q) : 2 ^ k ≤ nearest q := by
  obtain ⟨n, hpow⟩ := zpow_eq_mul hk
  have hpos : (0 : ℚ) < 2 ^ lastPlace q := by positivity
  have hscaled : (n : ℚ) ≤ q / 2 ^ lastPlace q := by rwa [le_div_iff₀ hpos, ← hpow]
  have hround := halfEven_mono (Nat.cast_nonneg _) hscaled
  rw [halfEven_natCast] at hround
  rw [nearest, hpow]
  gcongr

theorem nearest_mono {p q : ℚ} (hp : 0 ≤ p) (h : p ≤ q) : nearest p ≤ nearest q := by
  rcases hp.eq_or_lt with rfl | hpos
  · rw [nearest_zero]
    exact nearest_nonneg q
  have hlog := Int.log_mono_right (b := 2) hpos h
  rcases eq_or_ne (lastPlace p) (lastPlace q) with hsame | hother
  · rw [nearest, nearest, hsame]
    gcongr
    exact halfEven_mono (by positivity) (by gcongr)
  · -- the power of two where the places change lies between them
    have hbetween : Int.log 2 p < Int.log 2 q ∧ -1022 ≤ Int.log 2 q ∧ lastPlace q ≤ Int.log 2 q := by
      unfold lastPlace at hother ⊢
      omega
    have hpow : p ≤ 2 ^ Int.log 2 q := by
      have hlt := Int.lt_zpow_succ_log_self (b := 2) one_lt_two p
      have hexp : ((2 : ℕ) : ℚ) ^ (Int.log 2 p + 1) ≤ ((2 : ℕ) : ℚ) ^ Int.log 2 q :=
        zpow_le_zpow_right₀ (by norm_num) (by omega)
      exact_mod_cast hlt.le.trans hexp
    have hpow' : 2 ^ Int.log 2 q ≤ q := by
      exact_mod_cast Int.zpow_log_le_self (b := 2) one_lt_two (hpos.trans_le h)
    exact (nearest_le_zpow hpos hbetween.2.1 hpow).trans (zpow_le_nearest hbetween.2.2 hpow')

inductive Binary64
  | nan
  | infinite (negative : Bool)
  | finite (negative : Bool) (magnitude : ℚ≥0)
  deriving DecidableEq

namespace Binary64

def signed {α : Type} [Neg α] (negative : Bool) (a : α) : α := if negative then -a else a

/-- The value nearest to a magnitude with a sign. -/
def ofMagnitude (negative : Bool) (q : ℚ≥0) : Binary64 :=
  if nearest q < 2 ^ 1024 then finite negative ⟨nearest q, nearest_nonneg q⟩ else infinite negative

/-- The product with a positive number. -/
def scale (k : ℚ≥0) : Binary64 → Binary64
  | nan => nan
  | infinite negative => infinite negative
  | finite negative q => ofMagnitude negative (q * k)

/-- The smallest and the largest of the 32-bit integers take the place of what lies outside. -/
def saturate (n : ℤ) : ℤ := max (-2 ^ 31) (min n (2 ^ 31 - 1))

/-- The conversion to a 32-bit integer. -/
def toInt : Binary64 → ℤ
  | nan => 0
  | infinite negative => if negative then -2 ^ 31 else 2 ^ 31 - 1
  | finite negative q => saturate (signed negative ⌊(q : ℚ)⌋)

def Lt : Binary64 → Binary64 → Prop
  | infinite n, infinite m => n = true ∧ m = false
  | infinite n, finite _ _ => n = true
  | finite _ _, infinite m => m = false
  | finite n p, finite m q => signed n (p : ℚ) < signed m (q : ℚ)
  | _, _ => False

instance : DecidableRel Lt
  | nan, _ => isFalse nofun
  | infinite _, nan => isFalse nofun
  | finite _ _, nan => isFalse nofun
  | infinite n, infinite m => inferInstanceAs (Decidable (n = true ∧ m = false))
  | infinite n, finite _ _ => inferInstanceAs (Decidable (n = true))
  | finite _ _, infinite m => inferInstanceAs (Decidable (m = false))
  | finite n p, finite m q => inferInstanceAs (Decidable (signed n (p : ℚ) < signed m (q : ℚ)))

theorem saturate_mono {m n : ℤ} (h : m ≤ n) : saturate m ≤ saturate n := by
  unfold saturate
  omega

theorem toInt_bounds (x : Binary64) : -2 ^ 31 ≤ x.toInt ∧ x.toInt < 2 ^ 31 := by
  cases x with
  | nan => decide
  | infinite negative => cases negative <;> decide
  | finite negative q =>
    rw [toInt, saturate]
    omega

/-- Infinity is cut off as what is rounded to it. -/
theorem toInt_ofMagnitude (negative : Bool) (q : ℚ≥0) :
    (ofMagnitude negative q).toInt = saturate (signed negative ⌊nearest q⌋) := by
  unfold ofMagnitude
  split_ifs with hsmall
  · rfl
  · have hfloor : (2 : ℤ) ^ 1024 ≤ ⌊nearest q⌋ := by
      rw [Int.le_floor]
      exact_mod_cast not_lt.1 hsmall
    have hlarge : (2 : ℤ) ^ 31 ≤ ⌊nearest q⌋ := (pow_le_pow_right₀ (by norm_num) (by norm_num)).trans hfloor
    cases negative with
    | true =>
      simp only [toInt, signed, saturate, if_true]
      omega
    | false =>
      simp only [toInt, signed, saturate, Bool.false_eq_true, if_false]
      omega

/-- Magnitudes with signs keep their order when they are scaled and cut off. -/
theorem signed_floor_nearest_le {n m : Bool} {p q k : ℚ≥0} (h : signed m (q : ℚ) ≤ signed n (p : ℚ)) :
    signed m ⌊nearest (q * k : ℚ≥0)⌋ ≤ signed n ⌊nearest (p * k : ℚ≥0)⌋ := by
  have hp : (0 : ℚ) ≤ p := p.2
  have hq : (0 : ℚ) ≤ q := q.2
  have hk : (0 : ℚ) ≤ k := k.2
  have hfloor : ∀ r : ℚ≥0, 0 ≤ ⌊nearest r⌋ := fun r => Int.floor_nonneg.2 (nearest_nonneg _)
  have hmono : ∀ a b : ℚ≥0, (a : ℚ) ≤ b → ⌊nearest (a * k : ℚ≥0)⌋ ≤ ⌊nearest (b * k : ℚ≥0)⌋ := by
    intro a b hab
    refine Int.floor_le_floor (nearest_mono (a * k : ℚ≥0).2 ?_)
    push_cast
    gcongr
  have hpfloor := hfloor (p * k)
  have hqfloor := hfloor (q * k)
  cases n with
  | false =>
    cases m with
    | false =>
      exact hmono q p h
    | true =>
      simp only [signed, if_true, Bool.false_eq_true, if_false]
      omega
  | true =>
    cases m with
    | false =>
      -- both are zero
      simp only [signed, if_true, Bool.false_eq_true, if_false] at h
      have hp0 : p = 0 := by
        rw [← NNRat.coe_inj]
        push_cast
        linarith
      have hq0 : q = 0 := by
        rw [← NNRat.coe_inj]
        push_cast
        linarith
      rw [hp0, hq0]
      simp [signed]
    | true =>
      simp only [signed, if_true, neg_le_neg_iff] at h ⊢
      exact hmono p q h

/-- **What is not less is no less when scaled and cut off.** -/
theorem toInt_scale_le {x y : Binary64} (k : ℚ≥0) (hx : x ≠ nan) (hy : y ≠ nan) (h : ¬Lt x y) :
    (y.scale k).toInt ≤ (x.scale k).toInt := by
  have hxbounds := toInt_bounds (x.scale k)
  have hybounds := toInt_bounds (y.scale k)
  match x, y with
  | nan, _ => exact absurd rfl hx
  | _, nan => exact absurd rfl hy
  | infinite false, _ => exact Int.le_of_lt_add_one hybounds.2
  | _, infinite true => exact hxbounds.1
  | infinite true, infinite false => exact absurd ⟨rfl, rfl⟩ h
  | infinite true, finite m q => exact absurd rfl h
  | finite n p, infinite false => exact absurd rfl h
  | finite n p, finite m q =>
    rw [scale, scale, toInt_ofMagnitude, toInt_ofMagnitude]
    exact saturate_mono (signed_floor_nearest_le (not_lt.1 h))

end Binary64

end Lib
