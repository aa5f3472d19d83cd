import CaptureHPC.Proof.FileUploader
import CaptureHPC.Spec.Base64

/-!
# Base64 stays in its buffers

* `encode_eq_standard`: the text is the padded base64 encoding, which is stated over the bits
  (`standard`).
* `encodeBuffer_run`: `encode` writes this text at the start of its buffer, and nothing else.
* `decodeBuffer_run`: `decode` of it ends in its buffer and begins with the bytes.
* `encode_decode`: both together, for texts whose sizes fit in an `int`.
-/

namespace CaptureHPC.Cpp.Base64

/-! ## The encoding, by bits -/

/-- The bits of a byte, the highest first. -/
def bits (b : UInt8) : List ℕ :=
  [b.toNat / 128 % 2, b.toNat / 64 % 2, b.toNat / 32 % 2, b.toNat / 16 % 2, b.toNat / 8 % 2, b.toNat / 4 % 2,
    b.toNat / 2 % 2, b.toNat % 2]

/-- The number that these bits write. -/
def value (bs : List ℕ) : ℕ := bs.foldl (fun n b => 2 * n + b) 0

/-- Bits in groups of six; the last group is filled with zeros. -/
def sextets : List ℕ → List ℕ
  | [] => []
  | b :: bs => value ((b :: bs).take 6 ++ List.replicate (6 - (b :: bs).length) 0) :: sextets (bs.drop 5)
termination_by bs => bs.length
decreasing_by simp

/-- The padded base64 encoding: a letter for each group, and `=` until the length is a multiple of four. -/
def standard (bytes : List UInt8) : List UInt8 :=
  let letters := (sextets (bytes.flatMap bits)).map letter
  letters ++ List.replicate ((4 - letters.length % 4) % 4) '='.toUInt8

theorem sextets_nil : sextets [] = [] := by
  rw [sextets]

theorem sextets_cons (b5 b4 b3 b2 b1 b0 : ℕ) (bs : List ℕ) :
    sextets (b5 :: b4 :: b3 :: b2 :: b1 :: b0 :: bs) = value [b5, b4, b3, b2, b1, b0] :: sextets bs := by
  rw [sextets]
  simp

theorem value_append (xs ys : List ℕ) : value (xs ++ ys) = value xs * 2 ^ ys.length + value ys := by
  have h : ∀ n, ys.foldl (fun n b => 2 * n + b) n = n * 2 ^ ys.length + value ys := by
    induction ys with
    | nil => simp [value]
    | cons y ys ih =>
      intro n
      rw [value, List.foldl_cons, List.foldl_cons, ih, ih (2 * 0 + y), List.length_cons, Nat.pow_succ]
      ring
  rw [value, List.foldl_append, h]
  rfl

/-- Each further bit doubles what was read and adds the bit. -/
theorem value_take_bits (b : UInt8) {k : ℕ} (hk : k ≤ 8) : value ((bits b).take k) = b.toNat / 2 ^ (8 - k) := by
  have hb := b.toNat_lt
  have h0 : 0 = b.toNat / 256 := by omega
  have h1 : 2 * 0 + b.toNat / 128 % 2 = b.toNat / 128 := by omega
  have h2 : 2 * (b.toNat / 128) + b.toNat / 64 % 2 = b.toNat / 64 := by omega
  have h3 : 2 * (b.toNat / 64) + b.toNat / 32 % 2 = b.toNat / 32 := by omega
  have h4 : 2 * (b.toNat / 32) + b.toNat / 16 % 2 = b.toNat / 16 := by omega
  have h5 : 2 * (b.toNat / 16) + b.toNat / 8 % 2 = b.toNat / 8 := by omega
  have h6 : 2 * (b.toNat / 8) + b.toNat / 4 % 2 = b.toNat / 4 := by omega
  have h7 : 2 * (b.toNat / 4) + b.toNat / 2 % 2 = b.toNat / 2 := by omega
  have h8 : 2 * (b.toNat / 2) + b.toNat % 2 = b.toNat / 1 := by omega
  unfold value bits
  interval_cases k
  · exact h0
  all_goals simp only [List.take, List.foldl, h1, h2, h3, h4, h5, h6, h7, h8, Nat.reduceSub, Nat.reducePow]

/-- The other bits are what is left. -/
theorem value_drop_bits (b : UInt8) {k : ℕ} (hk : k ≤ 8) : value ((bits b).drop k) = b.toNat % 2 ^ (8 - k) := by
  have hall : value (bits b) = b.toNat := (value_take_bits b le_rfl).trans (Nat.div_one _)
  have hlength : ((bits b).drop k).length = 8 - k := List.length_drop
  have hsplit : b.toNat / 2 ^ (8 - k) * 2 ^ (8 - k) + value ((bits b).drop k) = b.toNat := by
    rw [← value_take_bits b hk, ← hlength, ← value_append, List.take_append_drop, hall]
  have hdiv := Nat.div_add_mod' b.toNat (2 ^ (8 - k))
  omega

/-- A group of six bits that lie in two bytes. -/
theorem value_across (a b : UInt8) {k j : ℕ} (hk : k ≤ 8) (hj : j ≤ 8) :
    value ((bits a).drop k ++ (bits b).take j) = a.toNat % 2 ^ (8 - k) * 2 ^ j + b.toNat / 2 ^ (8 - j) := by
  have hlength : ((bits b).take j).length = j := by simp [bits, hj]
  rw [value_append, value_drop_bits a hk, value_take_bits b hj, hlength]

/-- Three bytes are four groups. -/
theorem sextets_block (a b c : UInt8) (bs : List ℕ) : sextets (bits a ++ (bits b ++ (bits c ++ bs))) =
    block a b c / 262144 % 64 :: block a b c / 4096 % 64 :: block a b c / 64 % 64 :: block a b c % 64 ::
      sextets bs := by
  have ha := a.toNat_lt
  have hb := b.toNat_lt
  have hc := c.toNat_lt
  have hgroups : sextets (bits a ++ (bits b ++ (bits c ++ bs))) =
      value ((bits a).take 6) :: value ((bits a).drop 6 ++ (bits b).take 4) ::
        value ((bits b).drop 4 ++ (bits c).take 2) :: value ((bits c).drop 2) :: sextets bs := by
    simp only [bits, List.cons_append, List.nil_append, sextets_cons]
    rfl
  have h1 : block a b c / 262144 % 64 = a.toNat / 2 ^ (8 - 6) := by
    unfold block
    omega
  have h2 : block a b c / 4096 % 64 = a.toNat % 2 ^ (8 - 6) * 2 ^ 4 + b.toNat / 2 ^ (8 - 4) := by
    unfold block
    omega
  have h3 : block a b c / 64 % 64 = b.toNat % 2 ^ (8 - 4) * 2 ^ 2 + c.toNat / 2 ^ (8 - 2) := by
    unfold block
    omega
  have h4 : block a b c % 64 = c.toNat % 2 ^ (8 - 2) := by
    unfold block
    omega
  rw [hgroups, value_across a b (by decide : 6 ≤ 8) (by decide : 4 ≤ 8),
    value_across b c (by decide : 4 ≤ 8) (by decide : 2 ≤ 8), value_take_bits a (by decide : 6 ≤ 8),
    value_drop_bits c (by decide : 2 ≤ 8), h1, h2, h3, h4]

theorem standard_block (a b c : UInt8) (bytes : List UInt8) : standard (a :: b :: c :: bytes) =
    letter (block a b c / 262144) :: letter (block a b c / 4096) :: letter (block a b c / 64) ::
      letter (block a b c) :: standard bytes := by
  have hgroups : sextets ((a :: b :: c :: bytes).flatMap bits) =
      block a b c / 262144 % 64 :: block a b c / 4096 % 64 :: block a b c / 64 % 64 :: block a b c % 64 ::
        sextets (bytes.flatMap bits) := by
    rw [List.flatMap_cons, List.flatMap_cons, List.flatMap_cons, sextets_block]
  unfold standard
  rw [hgroups]
  simp only [List.map_cons, letter_mod, List.length_cons, List.cons_append]
  congr 7
  omega

theorem sextets_four (b3 b2 b1 b0 : ℕ) : sextets [b3, b2, b1, b0] = [value [b3, b2, b1, b0, 0, 0]] := by
  rw [sextets, List.drop_eq_nil_of_le (by simp), sextets_nil]
  rfl

theorem sextets_two (b1 b0 : ℕ) : sextets [b1, b0] = [value [b1, b0, 0, 0, 0, 0]] := by
  rw [sextets, List.drop_eq_nil_of_le (by simp), sextets_nil]
  rfl

theorem sextets_two_bytes (a b : UInt8) : sextets ([a, b].flatMap bits) =
    [block a b 0 / 262144 % 64, block a b 0 / 4096 % 64, block a b 0 / 64 % 64] := by
  have ha := a.toNat_lt
  have hb := b.toNat_lt
  have hgroups : sextets ([a, b].flatMap bits) = [value ((bits a).take 6), value ((bits a).drop 6 ++ (bits b).take 4),
      value ((bits b).drop 4 ++ [0, 0])] := by
    simp only [List.flatMap_cons, List.flatMap_nil, bits, List.cons_append, List.nil_append, sextets_cons, sextets_four]
    rfl
  have h1 : block a b 0 / 262144 % 64 = a.toNat / 2 ^ (8 - 6) := by
    rw [block_zero]
    omega
  have h2 : block a b 0 / 4096 % 64 = a.toNat % 2 ^ (8 - 6) * 2 ^ 4 + b.toNat / 2 ^ (8 - 4) := by
    rw [block_zero]
    omega
  have h3 : block a b 0 / 64 % 64 = b.toNat % 2 ^ (8 - 4) * 2 ^ [0, 0].length + value [0, 0] := by
    rw [block_zero, show value [0, 0] = 0 from rfl, show [0, 0].length = 2 from rfl]
    omega
  rw [hgroups, value_across a b (by decide : 6 ≤ 8) (by decide : 4 ≤ 8), value_append,
    value_take_bits a (by decide : 6 ≤ 8), value_drop_bits b (by decide : 4 ≤ 8), h1, h2, h3]

theorem standard_two (a b : UInt8) : standard [a, b] =
    [letter (block a b 0 / 262144), letter (block a b 0 / 4096), letter (block a b 0 / 64), '='.toUInt8] := by
  unfold standard
  rw [sextets_two_bytes]
  simp only [List.map_cons, List.map_nil, letter_mod]
  rfl

theorem sextets_one_byte (a : UInt8) :
    sextets ([a].flatMap bits) = [block a 0 0 / 262144 % 64, block a 0 0 / 4096 % 64] := by
  have ha := a.toNat_lt
  have hgroups : sextets ([a].flatMap bits) = [value ((bits a).take 6), value ((bits a).drop 6 ++ [0, 0, 0, 0])] := by
    simp only [List.flatMap_cons, List.flatMap_nil, bits, List.cons_append, List.nil_append, sextets_cons, sextets_two]
    rfl
  have h1 : block a 0 0 / 262144 % 64 = a.toNat / 2 ^ (8 - 6) := by
    rw [block_zero, UInt8.toNat_zero]
    omega
  have h2 : block a 0 0 / 4096 % 64 = a.toNat % 2 ^ (8 - 6) * 2 ^ [0, 0, 0, 0].length + value [0, 0, 0, 0] := by
    rw [block_zero, UInt8.toNat_zero, show value [0, 0, 0, 0] = 0 from rfl, show [0, 0, 0, 0].length = 4 from rfl]
    omega
  rw [hgroups, value_append, value_take_bits a (by decide : 6 ≤ 8), value_drop_bits a (by decide : 6 ≤ 8), h1, h2]

theorem standard_one (a : UInt8) : standard [a] =
    [letter (block a 0 0 / 262144), letter (block a 0 0 / 4096), '='.toUInt8, '='.toUInt8] := by
  unfold standard
  rw [sextets_one_byte]
  simp only [List.map_cons, List.map_nil, letter_mod]
  rfl

/-- **The text is the padded encoding.** -/
theorem encode_eq_standard (bytes : List UInt8) : encode bytes = standard bytes := by
  fun_induction encode bytes with
  | case1 a b c bytes n ih => rw [standard_block, ih]
  | case2 a b n => rw [standard_two]
  | case3 a n => rw [standard_one]
  | case4 =>
    unfold standard
    rw [List.flatMap_nil, sextets_nil]
    rfl

/-! ## Writing -/

variable {w r : List UInt8}

/-- A write behind what has been written. -/
theorem write_end (b x : UInt8) : write (w ++ x :: r) w.length b = some (w ++ [b] ++ r) := by
  have hin : (0 : ℤ) ≤ w.length ∧ (w.length : ℤ) < (w ++ x :: r).length := by
    rw [List.length_append, List.length_cons]
    omega
  rw [write, if_pos hin, Int.toNat_natCast, List.set_append_right _ _ (Nat.le_refl _), Nat.sub_self,
    List.set_cons_zero, List.append_assoc, List.singleton_append]

/-- A buffer that has been written up to a place. -/
def written (w r : List UInt8) : Encoding := ⟨w ++ r, w.length⟩

theorem push_run (b x : UInt8) : (written w (x :: r)).push b = some (written (w ++ [b]) r) := by
  rw [Encoding.push, written, write_end, Option.map_some, written, List.length_append]
  rfl

theorem pushBlock_run (block : ℕ) (x1 x2 x3 x4 : UInt8) :
    (written w (x1 :: x2 :: x3 :: x4 :: r)).pushBlock block =
      some (written (w ++ [letter (block / 262144), letter (block / 4096), letter (block / 64), letter block]) r) := by
  simp only [Encoding.pushBlock, push_run, Option.bind_eq_bind, Option.bind_some, List.append_assoc,
    List.cons_append, List.nil_append]

/-- At least four places are left. -/
theorem four_left {n : ℕ} (h : 4 + n ≤ r.length) :
    ∃ x1 x2 x3 x4 r', r = x1 :: x2 :: x3 :: x4 :: r' ∧ n ≤ r'.length := by
  match r, h with
  | x1 :: x2 :: x3 :: x4 :: r', h =>
    simp only [List.length_cons] at h
    exact ⟨x1, x2, x3, x4, r', rfl, by omega⟩
  | [], h | [_], h | [_, _], h | [_, _, _], h => simp only [List.length_cons, List.length_nil] at h; omega

/-- The last letter is replaced by a padding character. -/
theorem padding_one (x : UInt8) : padding (written (w ++ [x]) r) [2] = some (written (w ++ ['='.toUInt8]) r) := by
  have hplace : ((written (w ++ [x]) r).k : ℤ) - (3 - (2 : ℕ)) = w.length := by
    simp [written]
  have hwrite : write (written (w ++ [x]) r).encodedBuffer w.length '='.toUInt8 =
      some (w ++ ['='.toUInt8] ++ r) := by
    rw [written, List.append_assoc, List.singleton_append, write_end]
  rw [padding, hplace, hwrite]
  simp [padding, written]

/-- The last two letters are. -/
theorem padding_two (x y : UInt8) : padding (written (w ++ [x, y]) r) [1, 2] =
    some (written (w ++ ['='.toUInt8, '='.toUInt8]) r) := by
  have hplace : ((written (w ++ [x, y]) r).k : ℤ) - (3 - (1 : ℕ)) = w.length := by
    rw [written, List.length_append]
    simp
  have hwrite : write (written (w ++ [x, y]) r).encodedBuffer w.length '='.toUInt8 =
      some (w ++ ['='.toUInt8] ++ y :: r) := by
    rw [written, List.append_assoc, List.cons_append, write_end]
    rfl
  have hrest := padding_one (w := w ++ ['='.toUInt8]) (r := r) y
  have hstate : written (w ++ ['='.toUInt8] ++ [y]) r =
      ⟨w ++ ['='.toUInt8] ++ y :: r, (written (w ++ [x, y]) r).k⟩ := by
    simp [written]
  rw [hstate, List.append_assoc w ['='.toUInt8] ['='.toUInt8]] at hrest
  rw [padding, hplace, hwrite]
  exact hrest

/-- The size of the text. -/
def textSize (length : ℕ) : ℕ := 4 * ((length + 2) / 3)

/-- The letters and then the padding: what the two loops write. -/
theorem loops_run (bytes : List UInt8) (h : textSize bytes.length ≤ r.length) :
    (do padding (← encodeLoop bytes (written w r))
          (if bytes.length % 3 > 0 then List.range' (bytes.length % 3) (3 - bytes.length % 3) else [])) =
      some (written (w ++ encode bytes) (r.drop (textSize bytes.length))) := by
  induction bytes using encode.induct generalizing w r with
  | case1 a b c bytes ih =>
    have hsize : textSize (a :: b :: c :: bytes).length = 4 + textSize bytes.length := by
      simp only [textSize, List.length_cons]
      omega
    rw [hsize] at h ⊢
    obtain ⟨x1, x2, x3, x4, r', rfl, hr'⟩ := four_left h
    have hmod : (a :: b :: c :: bytes).length % 3 = bytes.length % 3 := by
      simp only [List.length_cons]
      omega
    have hrest := @ih (w ++ [letter (block a b c / 262144), letter (block a b c / 4096), letter (block a b c / 64),
      letter (block a b c)]) r' hr'
    rw [hmod, encodeLoop, pushBlock_run, Option.bind_eq_bind, Option.bind_some]
    rw [Option.bind_eq_bind] at hrest
    rw [hrest, List.append_assoc, Nat.add_comm 4]
    rfl
  | case2 a b =>
    have hsize : textSize [a, b].length = 4 + 0 := by simp [textSize]
    have hpads : (if [a, b].length % 3 > 0 then List.range' ([a, b].length % 3) (3 - [a, b].length % 3) else []) =
        [2] := rfl
    rw [hsize] at h ⊢
    obtain ⟨x1, x2, x3, x4, r', rfl, -⟩ := four_left h
    have hpad := padding_one (w := w ++ [letter (block a b 0 / 262144), letter (block a b 0 / 4096),
      letter (block a b 0 / 64)]) (r := r') (letter (block a b 0))
    simp only [List.append_assoc, List.cons_append, List.nil_append] at hpad
    rw [encodeLoop, pushBlock_run, Option.bind_eq_bind, Option.bind_some, hpads, hpad]
    rfl
  | case3 a =>
    have hsize : textSize [a].length = 4 + 0 := by simp [textSize]
    have hpads : (if [a].length % 3 > 0 then List.range' ([a].length % 3) (3 - [a].length % 3) else []) =
        [1, 2] := rfl
    rw [hsize] at h ⊢
    obtain ⟨x1, x2, x3, x4, r', rfl, -⟩ := four_left h
    have hpad := padding_two (w := w ++ [letter (block a 0 0 / 262144), letter (block a 0 0 / 4096)]) (r := r')
      (letter (block a 0 0 / 64)) (letter (block a 0 0))
    simp only [List.append_assoc, List.cons_append, List.nil_append] at hpad
    rw [encodeLoop, pushBlock_run, Option.bind_eq_bind, Option.bind_some, hpads, hpad]
    rfl
  | case4 =>
    rw [encode, List.append_nil]
    rfl

theorem length_encode (bytes : List UInt8) : (encode bytes).length = textSize bytes.length := by
  fun_induction encode bytes with
  | case1 a b c bytes n ih =>
    simp only [List.length_cons, ih, textSize]
    omega
  | case2 a b n => simp [textSize]
  | case3 a n => simp [textSize]
  | case4 => rfl

theorem length_malloc (junk : ℕ → UInt8) (size : ℕ) : (malloc junk size).length = size := by
  rw [malloc, List.length_map, List.length_range]

/-- The buffer is two bytes longer than the text. -/
theorem bufferSize_eq {length : ℕ} (h : length < 2 ^ 29) : (bufferSize length).toInt.toNat = textSize length + 2 := by
  have hblocks : (if length % 3 ≠ 0 then Int32.ofNat (length / 3) + 1 else Int32.ofNat (length / 3)) =
      Int32.ofNat ((length + 2) / 3) := by
    split_ifs with hrest
    · rw [show (length + 2) / 3 = length / 3 + 1 by omega, Int32.ofNat_add]
      rfl
    · rw [show (length + 2) / 3 = length / 3 by omega]
  have hsum : bufferSize length = Int32.ofNat ((length + 2) / 3 * 4 + 2) := by
    rw [bufferSize, hblocks, Int32.ofNat_add, Int32.ofNat_mul]
    rfl
  rw [hsum, Int32.toInt_ofNat_of_lt (by omega), Int.toNat_natCast, textSize, Nat.mul_comm]

/-- **Encoding.** The text is written at the start of the buffer, and the two bytes behind it are left
alone. -/
theorem encodeBuffer_run (junk : ℕ → UInt8) {bytes : List UInt8} (h : bytes.length < 2 ^ 29) :
    encodeBuffer junk bytes = some (encode bytes ++ (malloc junk (textSize bytes.length + 2)).drop (textSize bytes.length),
      (encode bytes).length) := by
  have hbuffer := bufferSize_eq h
  have hloops := loops_run (w := []) (r := malloc junk (textSize bytes.length + 2)) bytes
    (by rw [length_malloc]; omega)
  rw [encodeBuffer, hbuffer]
  simp only [written, List.nil_append, List.length_nil, Option.bind_eq_bind] at hloops ⊢
  rw [← Option.bind_assoc, hloops]
  rfl

/-! ## Decoding -/

theorem indexOf_letter (n : ℕ) : indexOf (letter n) = some (n % 64) := by
  have h : ∀ k < 64, indexOf (letter k) = some k := by decide +kernel
  rw [← letter_mod]
  exact h _ (Nat.mod_lt _ (by decide))

theorem indexOf_pad : indexOf '='.toUInt8 = some 100 := by decide

theorem letter_ne_zero (n : ℕ) : letter n ≠ 0 := by
  have h : ∀ k < 64, letter k ≠ 0 := by decide +kernel
  rw [← letter_mod]
  exact h _ (Nat.mod_lt _ (by decide))

/-- The text has no NUL. -/
theorem encode_ne_zero (bytes : List UInt8) : ∀ b ∈ encode bytes, b ≠ 0 := by
  have hpad : '='.toUInt8 ≠ 0 := by decide
  fun_induction encode bytes with
  | case1 a b c bytes n ih => simpa [letter_ne_zero] using ih
  | case2 a b n => simp [letter_ne_zero, hpad]
  | case3 a n => simp [letter_ne_zero, hpad]
  | case4 => simp

/-- A buffer that has been filled up to a place. -/
def filled (w r : List UInt8) (encoded : UInt8 × UInt8 × UInt8 × UInt8) : Decoding := ⟨w ++ r, w.length, encoded⟩

theorem push_filled (encoded : UInt8 × UInt8 × UInt8 × UInt8) (b : ℕ) (x : UInt8) :
    (filled w (x :: r) encoded).push b = some (filled (w ++ [UInt8.ofNat b]) r encoded) := by
  rw [Decoding.push, filled, write_end, Option.map_some, filled, List.length_append]
  rfl

section Block

variable {c0 c1 c2 c3 : UInt8} {n0 n1 n2 n3 : ℕ} {s s' : Decoding} {i : ℕ}

/-- Four characters of the table, or of padding, give three bytes. -/
theorem flush_run (h0 : indexOf c0 = some n0) (h1 : indexOf c1 = some n1) (h2 : indexOf c2 = some n2)
    (h3 : indexOf c3 = some n3) (x y z : UInt8) :
    (filled w (x :: y :: z :: r) (c0, c1, c2, c3)).flush =
      some (filled (w ++ [UInt8.ofNat (n0 <<< 2 ||| n1 >>> 4), UInt8.ofNat (n1 <<< 4 ||| n2 >>> 2),
        UInt8.ofNat (n2 <<< 6 ||| n3)]) r (c0, c1, c2, c3)) := by
  have hstart : (filled w (x :: y :: z :: r) (c0, c1, c2, c3)).encoded = (c0, c1, c2, c3) := rfl
  simp only [Decoding.flush, hstart, h0, h1, h2, h3, push_filled, Option.bind_eq_bind, Option.bind_some,
    List.append_assoc, List.cons_append, List.nil_append]

/-- What the loop does first at a character, where a block may be complete. -/
def pending (s : Decoding) (i : ℕ) : Option Decoding := if 0 < i ∧ i % 4 = 0 then s.flush else some s

theorem decodeLoop_cons (c : UInt8) (text : List UInt8) (h : pending s i = some s') :
    decodeLoop (c :: text) i s = decodeLoop text (i + 1) (s'.store i c) := by
  unfold pending at h
  rw [decodeLoop]
  split at h
  · rename_i hblock
    rw [if_pos hblock, h]
    rfl
  · rename_i hblock
    cases h
    rw [if_neg hblock]
    rfl

theorem pending_inside (h : i % 4 ≠ 0) : pending s i = some s := if_neg fun hi => h hi.2

/-- The characters of a block are stored. -/
theorem decodeLoop_block (hi : i % 4 = 0) (h : pending s i = some s') (text : List UInt8) :
    decodeLoop (c0 :: c1 :: c2 :: c3 :: text) i s = decodeLoop text (i + 4) { s' with encoded := (c0, c1, c2, c3) } := by
  rw [decodeLoop_cons _ _ h, decodeLoop_cons _ _ (pending_inside (by omega)),
    decodeLoop_cons _ _ (pending_inside (by omega)), decodeLoop_cons _ _ (pending_inside (by omega))]
  simp only [Decoding.store, hi, show (i + 1) % 4 = 1 by omega, show (i + 1 + 1) % 4 = 2 by omega,
    show (i + 1 + 1 + 1) % 4 = 3 by omega]

/-- The last block, and the NUL behind it. -/
theorem decodeLoop_last {buffer : List UInt8} {position : ℕ} (hi : i % 4 = 0) (h : pending s i = some s')
    (hblock : pending { s' with encoded := (c0, c1, c2, c3) } (i + 4) = some ⟨buffer, position, (c0, c1, c2, c3)⟩) :
    decodeLoop [c0, c1, c2, c3, 0] i s = some ⟨buffer, position, (0, c1, c2, c3)⟩ := by
  rw [decodeLoop_block hi h, decodeLoop_cons _ _ hblock, decodeLoop, Decoding.store]
  simp only [show (i + 4) % 4 = 0 by omega]

/-- Behind a block the loop turns it into bytes. -/
theorem pending_block (hi : i % 4 = 0) (encoded : UInt8 × UInt8 × UInt8 × UInt8) (h0 : indexOf c0 = some n0)
    (h1 : indexOf c1 = some n1) (h2 : indexOf c2 = some n2) (h3 : indexOf c3 = some n3) (x y z : UInt8) :
    pending { filled w (x :: y :: z :: r) encoded with encoded := (c0, c1, c2, c3) } (i + 4) =
      some (filled (w ++ [UInt8.ofNat (n0 <<< 2 ||| n1 >>> 4), UInt8.ofNat (n1 <<< 4 ||| n2 >>> 2),
        UInt8.ofNat (n2 <<< 6 ||| n3)]) r (c0, c1, c2, c3)) := by
  rw [pending, if_pos (by omega)]
  exact flush_run h0 h1 h2 h3 x y z

end Block

theorem filled_three (a b c : UInt8) (encoded : UInt8 × UInt8 × UInt8 × UInt8) :
    filled (w ++ [a, b, c]) r encoded = ⟨w ++ a :: b :: c :: r, w.length + (3 + 0), encoded⟩ := by
  rw [filled, List.append_assoc, List.length_append]
  rfl

/-- At least three places are left. -/
theorem three_left {n : ℕ} (h : 3 + n ≤ r.length) : ∃ x y z r', r = x :: y :: z :: r' ∧ n ≤ r'.length := by
  match r, h with
  | x :: y :: z :: r', h =>
    simp only [List.length_cons] at h
    exact ⟨x, y, z, r', rfl, by omega⟩
  | [], h | [_], h | [_, _], h => simp only [List.length_cons, List.length_nil] at h; omega

/-! The bytes of a block, from its letters. -/

section Bytes

variable (a b c : UInt8)

theorem first_byte : UInt8.ofNat ((block a b c / 262144 % 64) <<< 2 ||| (block a b c / 4096 % 64) >>> 4) = a := by
  have ha := a.toNat_lt
  have hb := b.toNat_lt
  have hc := c.toNat_lt
  rw [← Nat.shiftLeft_add_eq_or_of_lt (by rw [Nat.shiftRight_eq_div_pow]; omega), Nat.shiftLeft_eq,
    Nat.shiftRight_eq_div_pow]
  refine ofNat_eq ?_
  unfold block
  omega

theorem second_byte : UInt8.ofNat ((block a b c / 4096 % 64) <<< 4 ||| (block a b c / 64 % 64) >>> 2) = b := by
  have ha := a.toNat_lt
  have hb := b.toNat_lt
  have hc := c.toNat_lt
  rw [← Nat.shiftLeft_add_eq_or_of_lt (by rw [Nat.shiftRight_eq_div_pow]; omega), Nat.shiftLeft_eq,
    Nat.shiftRight_eq_div_pow]
  refine ofNat_eq ?_
  unfold block
  omega

theorem third_byte : UInt8.ofNat ((block a b c / 64 % 64) <<< 6 ||| block a b c % 64) = c := by
  have ha := a.toNat_lt
  have hb := b.toNat_lt
  have hc := c.toNat_lt
  rw [← Nat.shiftLeft_add_eq_or_of_lt (by omega), Nat.shiftLeft_eq]
  refine ofNat_eq ?_
  unfold block
  omega

end Bytes

/-- **The loop.** It fills in the bytes of the text, and perhaps some more. -/
theorem decodeLoop_run (bytes : List UInt8) {s : Decoding} {i : ℕ} {encoded : UInt8 × UInt8 × UInt8 × UInt8}
    (hi : i % 4 = 0) (hs : pending s i = some (filled w r encoded)) (hr : 3 * ((bytes.length + 2) / 3) ≤ r.length) :
    ∃ t encoded', decodeLoop (encode bytes ++ [0]) i s =
        some ⟨w ++ t, w.length + 3 * ((bytes.length + 2) / 3), encoded'⟩ ∧
      t.length = r.length ∧ t.take bytes.length = bytes := by
  induction bytes using encode.induct generalizing w r s i encoded with
  | case1 a b c bytes ih =>
    have hsize : 3 * (((a :: b :: c :: bytes).length + 2) / 3) = 3 + 3 * ((bytes.length + 2) / 3) := by
      simp only [List.length_cons]
      omega
    rw [hsize] at hr ⊢
    obtain ⟨x, y, z, r', rfl, hr'⟩ := three_left hr
    have hblock := pending_block (w := w) (r := r') hi encoded (indexOf_letter (block a b c / 262144))
      (indexOf_letter (block a b c / 4096)) (indexOf_letter (block a b c / 64)) (indexOf_letter (block a b c)) x y z
    rw [first_byte, second_byte, third_byte] at hblock
    obtain ⟨t, encoded', hrun, hlen, htake⟩ := ih (i := i + 4) (by omega) hblock hr'
    refine ⟨a :: b :: c :: t, encoded', ?_, ?_, ?_⟩
    · rw [encode, List.cons_append, List.cons_append, List.cons_append, List.cons_append, decodeLoop_block hi hs, hrun,
        List.append_assoc, List.length_append, Nat.add_assoc]
      rfl
    · simp only [List.length_cons, hlen]
    · simp only [List.length_cons, List.take_succ_cons, htake]
  | case2 a b =>
    have hsize : 3 * (([a, b].length + 2) / 3) = 3 + 0 := by simp
    rw [hsize] at hr ⊢
    obtain ⟨x, y, z, r', rfl, -⟩ := three_left hr
    have hblock := pending_block (w := w) (r := r') hi encoded (indexOf_letter (block a b 0 / 262144))
      (indexOf_letter (block a b 0 / 4096)) (indexOf_letter (block a b 0 / 64)) indexOf_pad x y z
    rw [first_byte, second_byte, filled_three] at hblock
    exact ⟨a :: b :: _ :: r', _, decodeLoop_last hi hs hblock, rfl, rfl⟩
  | case3 a =>
    have hsize : 3 * (([a].length + 2) / 3) = 3 + 0 := by simp
    rw [hsize] at hr ⊢
    obtain ⟨x, y, z, r', rfl, -⟩ := three_left hr
    have hblock := pending_block (w := w) (r := r') hi encoded (indexOf_letter (block a 0 0 / 262144))
      (indexOf_letter (block a 0 0 / 4096)) indexOf_pad indexOf_pad x y z
    rw [first_byte, filled_three] at hblock
    exact ⟨a :: _ :: _ :: r', _, decodeLoop_last hi hs hblock, rfl, rfl⟩
  | case4 =>
    obtain ⟨c0, c1, c2, c3⟩ := encoded
    have hrun : decodeLoop (encode [] ++ [0]) i s = some ⟨w ++ r, w.length, (0, c1, c2, c3)⟩ := by
      rw [encode, List.nil_append, decodeLoop_cons _ _ hs, decodeLoop, Decoding.store]
      simp only [filled, hi]
    exact ⟨r, _, hrun, rfl, rfl⟩

/-- **Decoding.** It ends in its buffer, which then begins with the bytes. -/
theorem decodeBuffer_run (junk : ℕ → UInt8) (bytes behind : List UInt8) :
    ∃ buffer, decodeBuffer junk (encode bytes ++ 0 :: behind) = some buffer ∧ buffer.take bytes.length = bytes := by
  have htext : (encode bytes ++ 0 :: behind).takeWhile (· ≠ 0) = encode bytes := by
    rw [List.takeWhile_append_of_pos fun b hb => by simpa using encode_ne_zero bytes b hb]
    simp
  have hlen := length_encode bytes
  set text := encode bytes
  have hroom : 3 * ((bytes.length + 2) / 3) ≤ (malloc junk text.length).length := by
    rw [length_malloc, hlen, textSize]
    omega
  have hpending : pending (filled [] (malloc junk text.length) (0, 0, 0, 0)) 0 =
      some (filled [] (malloc junk text.length) (0, 0, 0, 0)) := rfl
  obtain ⟨t, encoded, hrun, ht, htake⟩ := decodeLoop_run bytes (Nat.zero_mod 4) hpending hroom
  rw [length_malloc] at ht
  have hposition : bytes.length ≤ 3 * ((bytes.length + 2) / 3) := by omega
  set position := 3 * ((bytes.length + 2) / 3)
  have hloop : decodeLoop (text ++ [0]) 0 ⟨malloc junk text.length, 0, (0, 0, 0, 0)⟩ = some ⟨t, position, encoded⟩ := by
    rw [List.nil_append, List.length_nil, Nat.zero_add] at hrun
    exact hrun
  unfold decodeBuffer
  rw [if_pos (List.mem_append_right _ List.mem_cons_self), htext]
  dsimp only
  rw [hloop, Option.bind_eq_bind, Option.bind_some]
  by_cases hshort : position < text.length
  · -- the NUL behind the bytes
    have hin : (0 : ℤ) ≤ position ∧ (position : ℤ) < t.length := by omega
    rw [if_pos hshort, write, if_pos hin]
    refine ⟨_, rfl, ?_⟩
    rw [Int.toNat_natCast, List.take_set_of_le hposition, htake]
  · rw [if_neg hshort]
    exact ⟨t, rfl, htake⟩

/-! ## Both -/

/-- **What is encoded is the padded base64 text, in its buffer, and decoding it gives the bytes, in its
buffer.** -/
theorem encode_decode (junk junk' : ℕ → UInt8) (bytes behind : List UInt8) (h : bytes.length < 2 ^ 29) :
    ∃ rest buffer,
      encodeBuffer junk bytes = some (standard bytes ++ rest, 4 * ((bytes.length + 2) / 3)) ∧
      (standard bytes).length = 4 * ((bytes.length + 2) / 3) ∧
      rest = (malloc junk (bufferSize bytes.length).toInt.toNat).drop (4 * ((bytes.length + 2) / 3)) ∧
      decodeBuffer junk' (standard bytes ++ 0 :: behind) = some buffer ∧ buffer.take bytes.length = bytes := by
  obtain ⟨buffer, hdecode, htake⟩ := decodeBuffer_run junk' bytes behind
  have hlen : (standard bytes).length = 4 * ((bytes.length + 2) / 3) := by
    rw [← encode_eq_standard, length_encode, textSize]
  refine ⟨_, buffer, ?_, hlen, rfl, ?_, htake⟩
  · rw [encodeBuffer_run junk h, encode_eq_standard, bufferSize_eq h, hlen, textSize]
  · rw [← encode_eq_standard]
    exact hdecode

/-- Four bytes. -/
theorem encode_decode_four : ∃ rest buffer,
    encodeBuffer (fun _ => 0xCD) [0x50, 0x4B, 3, 4] =
      some (standard [0x50, 0x4B, 3, 4] ++ rest, 4 * ((([0x50, 0x4B, 3, 4] : List UInt8).length + 2) / 3)) ∧
    (standard [0x50, 0x4B, 3, 4]).length = 4 * ((([0x50, 0x4B, 3, 4] : List UInt8).length + 2) / 3) ∧
    rest = (malloc (fun _ => 0xCD) (bufferSize ([0x50, 0x4B, 3, 4] : List UInt8).length).toInt.toNat).drop
      (4 * ((([0x50, 0x4B, 3, 4] : List UInt8).length + 2) / 3)) ∧
    decodeBuffer (fun _ => 0) (standard [0x50, 0x4B, 3, 4] ++ 0 :: []) = some buffer ∧
    buffer.take ([0x50, 0x4B, 3, 4] : List UInt8).length = [0x50, 0x4B, 3, 4] :=
  encode_decode _ _ [0x50, 0x4B, 3, 4] [] (by decide)

end CaptureHPC.Cpp.Base64
