import CaptureHPC.Spec.Zippa

/-!
# What one call of `processZipFile` does

* `readBytes_run`: bytes that lie in the array are read; `readBytes_fails`: others are not.
* `entry_run`: a header that lies in the array gives an entry.
* `process_run`: which branch a call takes, by the signature at its offset.
* `processLocal_run`, `processCentral_run`, `processEnd_run`: the branches for a header that lies in the
  array; `processLocal_short` and the like: the others, which do not return.
-/

namespace CaptureHPC

open Lib Zip

/-! ## Numbers -/

theorem wrap_eq {n : ℤ} (h : -2 ^ 31 ≤ n) (h' : n < 2 ^ 31) : wrap n = n :=
  Int.bmod_eq_of_le (by omega) (by omega)

theorem wrap_large {n : ℤ} (h : 2 ^ 31 ≤ n) (h' : n < 2 ^ 32) : wrap n = n - 2 ^ 32 := by
  have hshift : wrap n = wrap (n - 2 ^ 32) := by
    exact (Int.sub_bmod_right n (2 ^ 32)).symm
  rw [hshift, wrap_eq (by omega) (by omega)]

theorem le_wrap (n : ℤ) : -2 ^ 31 ≤ wrap n := by
  have h := Int.le_bmod (x := n) (m := 2 ^ 32) (by decide)
  unfold wrap
  omega

theorem wrap_lt (n : ℤ) : wrap n < 2 ^ 31 := by
  have h := Int.bmod_lt (x := n) (m := 2 ^ 32) (by decide)
  unfold wrap
  omega

theorem wrap_wrap_add (n k : ℤ) : wrap (wrap n + k) = wrap (n + k) := Int.bmod_add_bmod

theorem wrap_add_wrap (n k : ℤ) : wrap (n + wrap k) = wrap (n + k) := Int.add_bmod_bmod

theorem wrap_inj {n k : ℤ} (hn : 0 ≤ n) (hn' : n < 2 ^ 32) (hk : 0 ≤ k) (hk' : k < 2 ^ 31) :
    wrap n = k ↔ n = k := by
  rcases lt_or_ge n (2 ^ 31) with h | h
  · rw [wrap_eq (by omega) h]
  · rw [wrap_large h hn']
    omega

variable {data : Bytes} {z : Zippa}

/-! ## Reads -/

theorem byteAt_eq {i : ℕ} (h : i < data.length) : byteAt data i = some data[i] := by
  rw [byteAt, if_pos (Int.natCast_nonneg _), Int.toNat_natCast, List.getElem?_eq_getElem h]

theorem readLoop_run (rounds i shift : ℕ) (sum : ℤ) (h : i + rounds ≤ data.length) (hsum : wrap sum = sum) :
    (readLoop data rounds i shift sum).run z =
      .ok (wrap (sum + ofBytes (slice i rounds data) * 2 ^ shift)) z := by
  induction rounds generalizing i shift sum with
  | zero =>
    simp [readLoop, slice, ofBytes_nil, hsum]
  | succ rounds ih =>
    have hi : i < data.length := by omega
    have hslice : slice i (rounds + 1) data = data[i] :: slice (i + 1) rounds data := by
      rw [slice, slice, List.drop_eq_getElem_cons hi, List.take_succ_cons]
    have hnext := ih (i + 1) (shift + 8) (wrap (sum + data[i].toNat * 2 ^ shift)) (by omega)
      (wrap_eq (le_wrap _) (wrap_lt _))
    have hsum' : wrap (sum + data[i].toNat * 2 ^ shift) + ofBytes (slice (i + 1) rounds data) * 2 ^ (shift + 8) =
        wrap (sum + data[i].toNat * 2 ^ shift) + 256 * ofBytes (slice (i + 1) rounds data) * 2 ^ shift := by
      rw [pow_add]
      ring
    rw [readLoop, byteAt_eq hi]
    dsimp only
    rw [Nat.cast_add, Nat.cast_one] at hnext
    rw [hnext, hslice, ofBytes_cons, hsum', wrap_wrap_add]
    push_cast
    ring_nf

/-- Bytes that lie in the array are read. -/
theorem readBytes_run (hdata : data.length < 2 ^ 31) {o n : ℕ} (h : o + n ≤ data.length) :
    (readBytes data o n).run z = .ok (wrap (ofBytes (slice o n data))) z := by
  have hw : wrap ((o : ℤ) + n) = o + n := wrap_eq (by omega) (by omega)
  rw [readBytes, hw, add_sub_cancel_left, Int.toNat_natCast, readLoop_run n o 0 0 h (by decide)]
  simp

/-- The program reads outside of the array. -/
def Fails {α : Type} (m : ZippaM α) (z : Zippa) : Prop := m.run z = .error (.exception .arrayIndexOutOfBounds) z

/-- The program reads: it does not change the state, and only an index can stop it. -/
def Reads {α : Type} (m : ZippaM α) : Prop := ∀ z, (∃ a, m.run z = .ok a z) ∨ Fails m z

section Fails

variable {α β : Type} {m : ZippaM α} {f : α → ZippaM β}

theorem Fails.bind (h : Fails m z) : Fails (m >>= f) z := run_bind_error h

theorem Reads.bind_fails (h : Reads m) (hf : ∀ a, Fails (f a) z) : Fails (m >>= f) z := by
  rcases h z with ⟨a, ha⟩ | herr
  · rw [Fails, run_bind_ok ha]
    exact hf a
  · exact herr.bind

end Fails

theorem readLoop_reads (rounds : ℕ) (i : ℤ) (shift : ℕ) (sum : ℤ) : Reads (readLoop data rounds i shift sum) := by
  induction rounds generalizing i shift sum with
  | zero => exact fun _ => .inl ⟨_, rfl⟩
  | succ rounds ih =>
    unfold readLoop
    cases byteAt data i with
    | none => exact fun _ => .inr rfl
    | some b => exact ih _ _ _

theorem readBytes_reads (data : Bytes) (o : ℤ) (n : ℕ) : Reads (readBytes data o n) := by
  unfold readBytes
  exact readLoop_reads _ _ _ _

theorem readLoop_fails {rounds : ℕ} {i : ℤ} {shift : ℕ} {sum : ℤ} (hpos : 0 < rounds)
    (h : i < 0 ∨ (data.length : ℤ) < i + rounds) : Fails (readLoop data rounds i shift sum) z := by
  induction rounds generalizing i shift sum with
  | zero => exact absurd hpos (lt_irrefl 0)
  | succ rounds ih =>
    unfold readLoop
    cases hb : byteAt data i with
    | none => rfl
    | some b =>
      have hi : 0 ≤ i ∧ i < data.length := by
        unfold byteAt at hb
        split_ifs at hb with hnonneg
        have hlt := (List.getElem?_eq_some_iff.1 hb).1
        omega
      rcases h with h | h
      · omega
      · push_cast at h
        exact ih (by omega) (.inr (by omega))

/-- Other bytes are not, when the end of the read is an `int`. -/
theorem readBytes_fails {o : ℤ} {n : ℕ} (hpos : 0 < n) (ho : -2 ^ 31 ≤ o) (hint : o + n < 2 ^ 31)
    (h : o < 0 ∨ (data.length : ℤ) < o + n) : Fails (readBytes data o n) z := by
  rw [readBytes, wrap_eq (by omega) hint, add_sub_cancel_left, Int.toNat_natCast]
  exact readLoop_fails hpos h

/-- When it is none, nothing is read. -/
theorem readBytes_overflow {o : ℤ} {n : ℕ} (ho : o < 2 ^ 31) (hn : n < 2 ^ 31) (h : 2 ^ 31 ≤ o + n) :
    (readBytes data o n).run z = .ok 0 z := by
  have hneg : (wrap (o + n) - o).toNat = 0 := by
    rw [wrap_large h (by omega)]
    omega
  rw [readBytes, hneg]
  rfl

/-! ## The entry of a header -/

/-- `n` bytes of the array, padded with zeros. -/
def vectorAt (data : Bytes) (o n : ℕ) : Vector UInt8 n := Vector.ofFn fun i => data.getD (o + i) 0

theorem vectorAt_toList {o n : ℕ} (h : o + n ≤ data.length) : (vectorAt data o n).toList = slice o n data := by
  apply List.ext_getElem
  · rw [Vector.length_toList, length_slice h]
  · intro i hi hi'
    rw [Vector.length_toList] at hi
    have hlt : o + i < data.length := by omega
    simp [vectorAt, slice, List.getD_eq_getElem?_getD, List.getElem?_eq_getElem hlt]

theorem readBytesAsVector_run {o n : ℕ} (h : o ≤ data.length) :
    (readBytesAsVector data o n).run z = .ok (vectorAt data o n) z := by
  unfold readBytesAsVector
  rw [if_pos ⟨Int.natCast_nonneg _, by omega⟩]
  rfl

theorem readBytesAsVector_reads (data : Bytes) (o : ℤ) (n : ℕ) : Reads (readBytesAsVector data o n) := by
  unfold readBytesAsVector
  split_ifs
  · exact fun _ => .inl ⟨_, rfl⟩
  · exact fun _ => .inr rfl

theorem readBytesAsVector_fails {o : ℤ} {n : ℕ} (h : o < 0 ∨ (data.length : ℤ) < o) :
    Fails (readBytesAsVector data o n) z := by
  unfold readBytesAsVector
  rw [if_neg (by omega)]
  rfl

/-- The entry whose header is at `o`. -/
def entryAt (data : Bytes) (o : ℕ) : LocalFileEntry where
  ID := vectorAt data o 4
  version := vectorAt data (o + 4) 2
  gpbf := vectorAt data (o + 6) 2
  compMethod := vectorAt data (o + 8) 2
  timestamp := vectorAt data (o + 10) 4
  crc32 := vectorAt data (o + 14) 4
  cfsize := vectorAt data (o + 18) 4
  ucfsize := vectorAt data (o + 22) 4
  fnamelen := vectorAt data (o + 26) 2
  fxtrlen := vectorAt data (o + 28) 2
  fname := vectorAt data (o + 30) _
  fxtr := vectorAt data (o + 30) _
  myoffset := Int32.ofInt o

/-- A header that lies in the array gives an entry. -/
theorem entry_run (hdata : data.length < 2 ^ 31) {o : ℕ} (h : o + 30 ≤ data.length) :
    (LocalFileEntry.new data o).run z = .ok (entryAt data o) z := by
  have hstep : ∀ (k : ℕ) (i : ℤ) n, i = k → k ≤ 30 → (readBytesAsVector data (wrap ((o : ℤ) + i)) n).run z =
      .ok (vectorAt data (o + k) n) z := by
    intro k i n hi hk
    rw [hi, wrap_eq (by omega) (by omega), ← Nat.cast_add]
    exact readBytesAsVector_run (by omega)
  unfold LocalFileEntry.new
  rw [run_bind_ok (readBytesAsVector_run (by omega)), run_bind_ok (hstep 4 4 2 rfl (by omega)),
    run_bind_ok (hstep 6 6 2 rfl (by omega)), run_bind_ok (hstep 8 8 2 rfl (by omega)),
    run_bind_ok (hstep 10 10 4 rfl (by omega)), run_bind_ok (hstep 14 14 4 rfl (by omega)),
    run_bind_ok (hstep 18 18 4 rfl (by omega)), run_bind_ok (hstep 22 22 4 rfl (by omega)),
    run_bind_ok (hstep 26 26 2 rfl (by omega)), run_bind_ok (hstep 28 28 2 rfl (by omega)),
    run_bind_ok (hstep 30 30 _ rfl (by omega)), run_bind_ok (hstep 30 30 _ rfl (by omega))]
  rfl

/-- A header whose end is no `int` gives none. -/
theorem new_fails {o : ℤ} (ho : o < 2 ^ 31) (h : 2 ^ 31 ≤ o + 30) : Fails (LocalFileEntry.new data o) z := by
  have hneg : wrap (o + 30) < 0 := by
    rw [wrap_large h (by omega)]
    omega
  unfold LocalFileEntry.new
  iterate 10 refine Reads.bind_fails (readBytesAsVector_reads _ _ _) fun _ => ?_
  exact (readBytesAsVector_fails (.inl hneg)).bind

/-! ## Which branch is taken -/

variable {arg : String}

theorem wrap_ofBytes_eq {bytes signature : Bytes} (hlength : bytes.length = signature.length)
    (hfour : signature.length = 4) (hsmall : ofBytes signature < 2 ^ 31) :
    wrap (ofBytes bytes) = ofBytes signature ↔ bytes = signature := by
  have hlt := ofBytes_lt bytes
  rw [hlength, hfour] at hlt
  rw [wrap_inj (Int.natCast_nonneg _) (by omega) (Int.natCast_nonneg _) (by omega), Nat.cast_inj]
  constructor
  · intro h
    rw [← toBytes_ofBytes bytes, h, hlength, toBytes_ofBytes]
  · rintro rfl
    rfl

theorem localSignature_value : (ofBytes localSignature : ℤ) = 0x4034B50 := by decide

theorem centralSignature_value : (ofBytes centralSignature : ℤ) = 0x02014B50 := by decide

theorem endSignature_value : (ofBytes endSignature : ℤ) = 0x06054B50 := by decide

/-- The call at the end of the array: there is no room for a signature. -/
theorem process_short {fuel : ℕ} {o : ℤ} (ho : o < 2 ^ 31) (ho' : -2 ^ 31 ≤ o) (h : data.length < o + 4) :
    (processZipFile arg data (fuel + 1) o).run z = .ok () { z with lastOffset := o } := by
  unfold processZipFile
  rw [EStateM.run_bind]
  dsimp only [EStateM.run_modify]
  rcases lt_or_ge (o + 4) (2 ^ 31) with hint | hint
  · rw [wrap_eq (by omega) hint, if_neg (by omega)]
    rfl
  · -- the end of the signature is no `int`: nothing is read, and zero is no signature
    have hle : wrap (o + 4) ≤ data.length := by
      rw [wrap_large hint (by omega)]
      omega
    rw [if_pos hle, run_bind_ok (readBytes_overflow ho (by decide) hint)]
    rfl

/-- A call in front of the array. -/
theorem process_negative {fuel : ℕ} {o : ℤ} (ho : o < 0) (ho' : -2 ^ 31 ≤ o) (h : o + 4 ≤ data.length) :
    (processZipFile arg data (fuel + 1) o).run z =
      .error (.exception .arrayIndexOutOfBounds) { z with lastOffset := o } := by
  unfold processZipFile
  rw [EStateM.run_bind]
  dsimp only [EStateM.run_modify]
  rw [wrap_eq (by omega) (by omega), if_pos h]
  exact run_bind_error (readBytes_fails (by decide) ho' (by omega) (.inl ho))

theorem process_run (hdata : data.length < 2 ^ 31) {fuel o : ℕ} (h : o + 4 ≤ data.length) :
    (processZipFile arg data (fuel + 1) o).run z =
      if slice o 4 data = localSignature then
        (processLocal arg data (processZipFile arg data fuel) o).run { z with lastOffset := o }
      else if slice o 4 data = centralSignature then
        (processCentral arg data (processZipFile arg data fuel) o).run { z with lastOffset := o }
      else if slice o 4 data = endSignature then (processEnd arg data o).run { z with lastOffset := o }
      else .ok () { z with lastOffset := o } := by
  have hwrap : wrap ((o : ℤ) + 4) = o + 4 := wrap_eq (by omega) (by omega)
  have hfour : (slice o 4 data).length = 4 := length_slice h
  unfold processZipFile
  rw [EStateM.run_bind]
  dsimp only [EStateM.run_modify]
  rw [hwrap, if_pos (by omega), run_bind_ok (readBytes_run hdata h), ← localSignature_value,
    ← centralSignature_value, ← endSignature_value]
  simp only [@wrap_ofBytes_eq _ localSignature hfour rfl (by decide),
    @wrap_ofBytes_eq _ centralSignature hfour rfl (by decide), @wrap_ofBytes_eq _ endSignature hfour rfl (by decide)]
  split_ifs <;> rfl

/-! ## Local entries -/

/-- Where the local entry at `o` declares to end. -/
def localNext (data : Bytes) (o : ℕ) : ℤ :=
  wrap (o + 30 + ofBytes (slice (o + 26) 2 data) + ofBytes (slice (o + 28) 2 data) + ofBytes (slice (o + 18) 4 data))

/-- Where the record of the directory at `o` declares to end. -/
def centralNext (data : Bytes) (o : ℕ) : ℤ :=
  wrap (o + 46 + ofBytes (slice (o + 28) 2 data) + ofBytes (slice (o + 30) 2 data) + ofBytes (slice (o + 32) 2 data))

theorem wrap_twoBytes (o : ℕ) : wrap (ofBytes (slice o 2 data)) = ofBytes (slice o 2 data) := by
  have hlt := ofBytes_lt (slice o 2 data)
  have hlength : (slice o 2 data).length ≤ 2 := by
    rw [slice, List.length_take]
    exact Nat.min_le_left _ _
  have hpow : 256 ^ (slice o 2 data).length ≤ 256 ^ 2 := Nat.pow_le_pow_right (by decide) hlength
  exact wrap_eq (by omega) (by omega)

/-- A read behind `o`. -/
theorem readBytes_behind (hdata : data.length < 2 ^ 31) {o : ℕ} (k : ℕ) (i : ℤ) (n : ℕ) (hi : i = k)
    (h : o + k + n ≤ data.length) :
    (readBytes data (wrap (o + i)) n).run z = .ok (wrap (ofBytes (slice (o + k) n data))) z := by
  rw [hi, wrap_eq (by omega) (by omega), ← Nat.cast_add]
  exact readBytes_run hdata h

theorem repairLast_run {o : ℕ} (hz : z.lastOffset = o) :
    (repairLast arg data).run z = .ok () { z with files := z.files ++ [(arg ++ "a", repaired data o z.lfes)] } := by
  obtain ⟨last, lfes, files⟩ := z
  obtain rfl : last = o := hz
  unfold repairLast repairZipFile
  rw [EStateM.run_bind]
  dsimp only [EStateM.run_get]
  rw [if_neg (by omega), Int.toNat_natCast]
  rfl

/-- An entry whose header lies in the array: what follows is read, or the entry is left out. -/
theorem processLocal_run (hdata : data.length < 2 ^ 31) {process : ℤ → ZippaM Unit} {o : ℕ}
    (hz : z.lastOffset = o) (h : o + 30 ≤ data.length) :
    (processLocal arg data process o).run z =
      if localNext data o < data.length then
        (process (localNext data o)).run { z with lfes := z.lfes ++ [entryAt data o] }
      else .ok () { z with files := z.files ++ [(arg ++ "a", repaired data o z.lfes)] } := by
  have hwrap : wrap ((o : ℤ) + 30) = o + 30 := wrap_eq (by omega) (by omega)
  have hnew : (LocalFileEntry.new data z.lastOffset).run z = .ok (entryAt data o) z := by
    rw [hz]
    exact entry_run hdata h
  unfold processLocal localNext
  rw [hwrap, if_neg (by omega)]
  dsimp only
  rw [run_bind_ok (readBytes_behind hdata 4 4 2 rfl (by omega)),
    run_bind_ok (readBytes_behind hdata 8 8 2 rfl (by omega)),
    run_bind_ok (readBytes_behind hdata 18 18 4 rfl (by omega)),
    run_bind_ok (readBytes_behind hdata 22 22 4 rfl (by omega)),
    run_bind_ok (readBytes_behind hdata 26 26 2 rfl (by omega)),
    run_bind_ok (readBytes_behind hdata 28 28 2 rfl (by omega)), EStateM.run_bind]
  dsimp only [EStateM.run_get]
  rw [run_bind_ok hnew, EStateM.run_bind]
  dsimp only [EStateM.run_modify]
  rw [wrap_add_wrap, wrap_twoBytes, wrap_twoBytes]
  split_ifs with hnext
  · rfl
  · rw [EStateM.run_bind]
    dsimp only [EStateM.run_modify]
    rw [List.dropLast_concat]
    exact repairLast_run hz

/-- An entry whose header does not. The archive is repaired before the array is left. -/
theorem processLocal_short {process : ℤ → ZippaM Unit} {o : ℕ} (hz : z.lastOffset = o) (ho : o + 30 < 2 ^ 31)
    (h : data.length < o + 30) :
    (processLocal arg data process o).run z = .error (.exception .arrayIndexOutOfBounds)
      { z with files := z.files ++ [(arg ++ "a", repaired data o z.lfes)] } := by
  have hlast : Fails (readBytes data (wrap ((o : ℤ) + 28)) 2)
      { z with files := z.files ++ [(arg ++ "a", repaired data o z.lfes)] } := by
    rw [wrap_eq (by omega) (by omega)]
    exact readBytes_fails (by decide) (by omega) (by omega) (.inr (by omega))
  have hwrap : wrap ((o : ℤ) + 30) = o + 30 := wrap_eq (by omega) (by omega)
  unfold processLocal
  rw [hwrap, if_pos (by omega)]
  dsimp only
  rw [run_bind_ok (repairLast_run hz)]
  refine Reads.bind_fails (readBytes_reads _ _ _) fun _ => ?_
  refine Reads.bind_fails (readBytes_reads _ _ _) fun _ => ?_
  refine Reads.bind_fails (readBytes_reads _ _ _) fun _ => ?_
  refine Reads.bind_fails (readBytes_reads _ _ _) fun _ => ?_
  refine Reads.bind_fails (readBytes_reads _ _ _) fun _ => ?_
  exact hlast.bind

/-- At the upper end of the `int`s the test for the header overflows, and nothing is repaired. -/
theorem processLocal_overflow {process : ℤ → ZippaM Unit} {o : ℕ} (hz : z.lastOffset = o) (ho : o < 2 ^ 31)
    (h : 2 ^ 31 ≤ o + 30) : Fails (processLocal arg data process o) z := by
  have hneg : wrap ((o : ℤ) + 30) < 0 := by
    rw [wrap_large (by omega) (by omega)]
    omega
  have hnew : Fails (LocalFileEntry.new data z.lastOffset) z := by
    rw [hz]
    exact new_fails (by omega) (by omega)
  unfold processLocal
  rw [if_neg (by omega)]
  dsimp only
  refine Reads.bind_fails (readBytes_reads _ _ _) fun _ => ?_
  refine Reads.bind_fails (readBytes_reads _ _ _) fun _ => ?_
  refine Reads.bind_fails (readBytes_reads _ _ _) fun _ => ?_
  refine Reads.bind_fails (readBytes_reads _ _ _) fun _ => ?_
  refine Reads.bind_fails (readBytes_reads _ _ _) fun _ => ?_
  refine Reads.bind_fails (readBytes_reads _ _ _) fun _ => ?_
  rw [Fails, EStateM.run_bind]
  exact hnew.bind

/-! ## Records of the directory -/

theorem processCentral_run (hdata : data.length < 2 ^ 31) {process : ℤ → ZippaM Unit} {o : ℕ}
    (h : o + 34 ≤ data.length) :
    (processCentral arg data process o).run z =
      if centralNext data o < data.length then (process (centralNext data o)).run z else .ok () z := by
  have hwrap : wrap ((o : ℤ) + 30) = o + 30 := wrap_eq (by omega) (by omega)
  unfold processCentral centralNext
  rw [hwrap, if_neg (by omega), ← hwrap]
  dsimp only
  rw [run_bind_ok (readBytes_behind hdata 28 28 2 rfl (by omega)),
    run_bind_ok (readBytes_behind hdata 30 30 2 rfl (by omega)),
    run_bind_ok (readBytes_behind hdata 32 32 2 rfl (by omega)), wrap_twoBytes, wrap_twoBytes, wrap_twoBytes]
  split_ifs <;> rfl

theorem Fails.not_returns {α : Type} {m : ZippaM α} (h : Fails m z) : returns (m.run z) = false := by
  rw [show m.run z = _ from h]
  rfl

/-- An optional repair in front of a program that does not return. -/
theorem not_returns_behind {c : Prop} [Decidable c] {m : ZippaM Unit} {f : Unit → ZippaM Unit}
    (hf : ∀ z, returns ((f ()).run z) = false) : returns ((if c then m >>= f else f ()).run z) = false := by
  split_ifs
  · cases hm : m.run z with
    | ok u z' =>
      rw [run_bind_ok hm]
      exact hf z'
    | error e z' =>
      rw [run_bind_error hm]
      rfl
  · exact hf z

/-- A record whose lengths are not in the array. The call returns in no case. -/
theorem processCentral_short (hdata : data.length < 2 ^ 31) {process : ℤ → ZippaM Unit} {o : ℕ} (ho : o < 2 ^ 31)
    (h : data.length < o + 34)
    (hprocess : ∀ (p : ℤ) z, p < 0 → -2 ^ 31 ≤ p → p + 4 ≤ data.length → returns ((process p).run z) = false) :
    returns ((processCentral arg data process o).run z) = false := by
  have hw {k : ℤ} (hk : 0 ≤ k) (hk' : o + k < 2 ^ 31) : wrap (o + k) = o + k := wrap_eq (by omega) hk'
  unfold processCentral
  refine not_returns_behind fun z => ?_
  by_cases hfirst : o + 32 ≤ data.length ∧ (2 : ℤ) ^ 31 ≤ o + 34
  · -- the last length is read as zero, and the offset overflows
    have hlast : (readBytes data (wrap ((o : ℤ) + 32)) 2).run z = .ok 0 z := by
      rw [hw (by decide) (by omega)]
      exact readBytes_overflow (by omega) (by decide) (by push_cast; omega)
    have hn := ofBytes_lt (slice (o + 28) 2 data)
    have hx := ofBytes_lt (slice (o + 30) 2 data)
    rw [length_slice (by omega)] at hn hx
    rw [run_bind_ok (readBytes_behind hdata 28 28 2 rfl (by omega)),
      run_bind_ok (readBytes_behind hdata 30 30 2 rfl (by omega)), run_bind_ok hlast, wrap_twoBytes, wrap_twoBytes,
      wrap_large (by omega) (by omega)]
    dsimp only
    rw [if_pos (by omega)]
    exact hprocess _ _ (by omega) (by omega) (by omega)
  · -- one of the three lengths is outside
    apply Fails.not_returns
    rcases lt_or_ge (o + 32 : ℤ) (2 ^ 31) with hint | hint
    · rcases lt_or_ge data.length (o + 30) with h30 | h30
      · refine Fails.bind ?_
        rw [hw (by decide) (by omega)]
        exact readBytes_fails (by decide) (by omega) (by push_cast; omega) (.inr (by push_cast; omega))
      · refine Reads.bind_fails (readBytes_reads _ _ _) fun _ => ?_
        rcases lt_or_ge data.length (o + 32) with h32 | h32
        · refine Fails.bind ?_
          rw [hw (by decide) (by omega)]
          exact readBytes_fails (by decide) (by omega) (by push_cast; omega) (.inr (by push_cast; omega))
        · refine Reads.bind_fails (readBytes_reads _ _ _) fun _ => Fails.bind ?_
          rw [hw (by decide) (by omega)]
          exact readBytes_fails (by decide) (by omega) (by push_cast; omega) (.inr (by push_cast; omega))
    · refine Reads.bind_fails (readBytes_reads _ _ _) fun _ => ?_
      refine Reads.bind_fails (readBytes_reads _ _ _) fun _ => Fails.bind ?_
      rw [wrap_large hint (by omega)]
      exact readBytes_fails (by decide) (by omega) (by push_cast; omega) (.inl (by omega))

/-! ## The end of the directory -/

theorem processEnd_run (hdata : data.length < 2 ^ 31) {o : ℕ} (h : o + 22 ≤ data.length) :
    (processEnd arg data o).run z = .ok () z := by
  have hwrap : wrap ((o : ℤ) + 20) = o + 20 := wrap_eq (by omega) (by omega)
  unfold processEnd
  rw [hwrap, if_neg (by omega), ← hwrap]
  dsimp only
  rw [run_bind_ok (readBytes_behind hdata 20 20 2 rfl (by omega))]
  rfl

/-- At the upper end of the `int`s the length of the comment is read as zero. -/
theorem processEnd_overflow {o : ℕ} (hz : z.lastOffset = o) (ho : o + 20 < 2 ^ 31) (h : 2 ^ 31 ≤ o + 22) :
    returns ((processEnd arg data o).run z) = true := by
  have hwrap : wrap ((o : ℤ) + 20) = o + 20 := wrap_eq (by omega) (by omega)
  have hread (z : Zippa) : (readBytes data (wrap ((o : ℤ) + 20)) 2).run z = .ok 0 z := by
    rw [hwrap]
    exact readBytes_overflow (by omega) (by decide) (by push_cast; omega)
  unfold processEnd
  split_ifs
  · rw [run_bind_ok (repairLast_run hz), run_bind_ok (hread _)]
    rfl
  · rw [run_bind_ok (hread _)]
    rfl

theorem processEnd_short {o : ℕ} (ho : o < 2 ^ 31) (h : data.length < o + 22)
    (hint : 2 ^ 31 ≤ o + 20 ∨ o + 22 < 2 ^ 31) : returns ((processEnd arg data o).run z) = false := by
  unfold processEnd
  refine not_returns_behind fun z => Fails.not_returns (Fails.bind ?_)
  rcases hint with hint | hint
  · rw [wrap_large (by omega) (by omega)]
    exact readBytes_fails (by decide) (by omega) (by push_cast; omega) (.inl (by omega))
  · rw [wrap_eq (by omega) (by omega)]
    exact readBytes_fails (by decide) (by omega) (by push_cast; omega) (.inr (by push_cast; omega))

/-! ## A small archive -/

/-- Two bytes. -/
def shortOf (a b : UInt8) : Vector UInt8 2 := #v[a, b]

/-- Four bytes. -/
def intOf (a b c d : UInt8) : Vector UInt8 4 := #v[a, b, c, d]

theorem length_letter_lt (letter : UInt8) : [letter].length < 2 ^ 16 := by simp

theorem length_nil_lt_short : ([] : Bytes).length < 2 ^ 16 := by decide

/-- A stored file with a name of one letter. -/
def smallFile (letter : UInt8) (crc : Vector UInt8 4) (data : Bytes) (h : data.length < 2 ^ 32) : LocalEntry where
  version := shortOf 20 0
  flags := shortOf 0 0
  method := shortOf 0 0
  time := intOf 0 0 0 0
  crc := crc
  usize := intOf (.ofNat data.length) 0 0 0
  name := [letter]
  extra := []
  data := data
  name_lt := length_letter_lt letter
  extra_lt := length_nil_lt_short
  data_lt := h

def smallRecord (letter offset size : UInt8) (crc : Vector UInt8 4) : CentralRecord where
  versions := intOf 20 0 20 0
  flags := shortOf 0 0
  method := shortOf 0 0
  time := intOf 0 0 0 0
  crc := crc
  csize := intOf size 0 0 0
  usize := intOf size 0 0 0
  disk := shortOf 0 0
  attributes := .replicate 6 0
  offset := intOf offset 0 0 0
  name := [letter]
  extra := []
  comment := []
  name_lt := length_letter_lt letter
  extra_lt := length_nil_lt_short
  comment_lt := length_nil_lt_short

/-- The file `a` has the text "hi", and `b` has "!". -/
def smallArchive : Archive where
  entries := [smallFile 97 (intOf 172 42 147 216) [104, 105] (by decide),
    smallFile 98 (intOf 211 255 107 158) [33] (by decide)]
  directory := [smallRecord 97 0 2 (intOf 172 42 147 216), smallRecord 98 33 1 (intOf 211 255 107 158)]
  endRecord := {
    disks := intOf 0 0 0 0, diskEntries := shortOf 2 0, entries := shortOf 2 0, dirSize := intOf 94 0 0 0,
    dirOffset := intOf 65 0 0 0, comment := [], comment_lt := length_nil_lt_short }

theorem length_smallArchive_lt : smallArchive.bytes.length < 2 ^ 31 := by decide +kernel

end CaptureHPC
