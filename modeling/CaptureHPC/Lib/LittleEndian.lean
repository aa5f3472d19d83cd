import Mathlib

/-!
# Numbers as bytes, the least significant first

* `ofBytes`: the number that some bytes are.
* `toBytes w n`: the last `w` bytes of a number (`ofBytes_toBytes`).
-/

namespace Lib

/-- The number that the bytes are. -/
def ofBytes (bytes : List UInt8) : ℕ := Nat.ofDigits 256 (bytes.map UInt8.toNat)

/-- The last bytes of a number. -/
def toBytes : ℕ → ℕ → List UInt8
  | 0, _ => []
  | w + 1, n => UInt8.ofNat n :: toBytes w (n / 256)

theorem ofBytes_nil : ofBytes [] = 0 := rfl

theorem ofBytes_cons (b : UInt8) (bytes : List UInt8) : ofBytes (b :: bytes) = b.toNat + 256 * ofBytes bytes := by
  rw [ofBytes, List.map_cons, Nat.ofDigits_cons, ofBytes]

theorem ofBytes_lt (bytes : List UInt8) : ofBytes bytes < 256 ^ bytes.length := by
  induction bytes with
  | nil => decide
  | cons b bytes ih =>
    have hb := b.toNat_lt
    rw [ofBytes_cons, List.length_cons, pow_succ]
    omega

@[simp] theorem length_toBytes (w n : ℕ) : (toBytes w n).length = w := by
  induction w generalizing n with
  | zero => rfl
  | succ w ih => rw [toBytes, List.length_cons, ih]

/-- **Reading what was written** gives the number modulo its size. -/
theorem ofBytes_toBytes (w n : ℕ) : ofBytes (toBytes w n) = n % 256 ^ w := by
  induction w generalizing n with
  | zero => rw [toBytes, ofBytes_nil, pow_zero, Nat.mod_one]
  | succ w ih =>
    have hb : (UInt8.ofNat n).toNat = n % 256 := UInt8.toNat_ofNat'
    rw [toBytes, ofBytes_cons, ih, hb, pow_succ', Nat.mod_mul]

theorem ofBytes_toBytes_of_lt {w n : ℕ} (h : n < 256 ^ w) : ofBytes (toBytes w n) = n := by
  rw [ofBytes_toBytes, Nat.mod_eq_of_lt h]

theorem toBytes_ofBytes (bytes : List UInt8) : toBytes bytes.length (ofBytes bytes) = bytes := by
  induction bytes with
  | nil => rfl
  | cons b bytes ih =>
    have hb := b.toNat_lt
    have hdiv : (b.toNat + 256 * ofBytes bytes) / 256 = ofBytes bytes := by omega
    have hmod : UInt8.ofNat (b.toNat + 256 * ofBytes bytes) = b := by
      apply UInt8.toNat.inj
      rw [UInt8.toNat_ofNat']
      omega
    rw [ofBytes_cons, List.length_cons, toBytes, hdiv, hmod, ih]

end Lib
