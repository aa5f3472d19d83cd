import CaptureHPC.Spec.ClientUrl

/-!
# The client's URL codec

* `encodeChar_eq`: a unit that is not left alone is written as its UTF-8 bytes, each an escape.
* `decode_encode_eq`: what is encoded is read back, but a blank comes back as a plus.
* `decode_encode`: so a text makes the round trip if and only if it has no blank.
-/

namespace CaptureHPC.Cpp.Url

theorem or_eq_add {a b : ℕ} (i : ℕ) (ha : a % 2 ^ i = 0) (hb : b < 2 ^ i) : a ||| b = a + b := by
  obtain ⟨k, rfl⟩ := Nat.dvd_of_mod_eq_zero ha
  rw [Nat.two_pow_add_eq_or_of_lt hb]

theorem and_63 (n : ℕ) : n &&& 0x3F = n % 64 := Nat.and_two_pow_sub_one_eq_mod n 6

theorem and_31 (n : ℕ) : n &&& 0x1F = n % 32 := Nat.and_two_pow_sub_one_eq_mod n 5

theorem and_15 (n : ℕ) : n &&& 0xF = n % 16 := Nat.and_two_pow_sub_one_eq_mod n 4

/-- The UTF-8 bytes of a unit. -/
def unitBytes (n : ℕ) : List ℕ :=
  if n < 0x80 then [n]
  else if n < 0x800 then [0xC0 + n / 64, 0x80 + n % 64]
  else [0xE0 + n / 4096, 0x80 + n / 64 % 64, 0x80 + n % 64]

theorem unitBytes_lt {n b : ℕ} (hn : n < 0x10000) (hb : b ∈ unitBytes n) : b < 256 := by
  unfold unitBytes at hb
  split_ifs at hb <;> simp at hb <;> omega

/-! ## Encoding -/

/-- **What a unit is encoded to.** -/
theorem encodeChar_eq (wch : WChar) : encodeChar wch =
    if isSafe wch.toNat then [wch] else if wch.toNat = 0x20 then [0x2B]
    else (unitBytes wch.toNat).flatMap hexenc := by
  have hlt := wch.toNat_lt
  unfold encodeChar unitBytes
  simp only
  set n := wch.toNat
  have hlow : 0x80 ||| n &&& 0x3F = 0x80 + n % 64 := by
    rw [and_63, or_eq_add 6 (a := 0x80) (by decide) (b := n % 64) (by omega)]
  split_ifs with h1 h2 h3 h4 h5 h6
  · rfl
  · rfl
  all_goals first | omega | skip
  · rw [List.flatMap_cons, List.flatMap_nil, List.append_nil]
  · have hlead : 0xC0 ||| n >>> 6 = 0xC0 + n / 64 := by
      rw [Nat.shiftRight_eq_div_pow, or_eq_add 6 (a := 0xC0) (by decide) (b := n / 2 ^ 6) (by omega)]
    rw [hlead, hlow, List.flatMap_cons, List.flatMap_cons, List.flatMap_nil, List.append_nil]
  · have hlead : 0xE0 ||| n >>> 12 = 0xE0 + n / 4096 := by
      rw [Nat.shiftRight_eq_div_pow, or_eq_add 5 (a := 0xE0) (by decide) (b := n / 2 ^ 12) (by omega)]
    have hmid : 0x80 ||| n >>> 6 &&& 0x3F = 0x80 + n / 64 % 64 := by
      rw [and_63, Nat.shiftRight_eq_div_pow, or_eq_add 6 (a := 0x80) (by decide) (b := n / 2 ^ 6 % 64) (by omega)]
    rw [hlead, hmid, hlow, List.flatMap_cons, List.flatMap_cons, List.flatMap_cons, List.flatMap_nil,
      List.append_nil, List.append_assoc]

/-! ## Decoding -/

theorem decodeFrom_push {wch : WChar} (h : wch ≠ 0x25) (d : Decoder) (rest : WString) :
    decodeFrom d (wch :: rest) = decodeFrom (d.push wch) rest := by
  match rest with
  | [] => rfl
  | [_] => rfl
  | a :: b :: r => rw [decodeFrom, if_neg h]

theorem decodeFrom_escape (d : Decoder) (a b : WChar) (rest : WString) :
    decodeFrom d (0x25 :: a :: b :: rest) = decodeFrom (d.byte (wcstol a b)) rest := by
  rw [decodeFrom, if_pos rfl]

/-- The bytes of a unit make it again. -/
theorem foldl_unitBytes {n : ℕ} (hn : n < 0x10000) (d : Decoder) :
    ((unitBytes n).foldl Decoder.byte d).decoded = d.decoded ++ [UInt16.ofNat n] := by
  unfold unitBytes
  split_ifs with h1 h2
  · rw [List.foldl_cons, List.foldl_nil, Decoder.byte, if_pos (by omega)]
    rfl
  · -- a lead byte and one more
    have hlead : d.byte (0xC0 + n / 64) = { d with conwch := n / 64 * 64, sequence := 1 } := by
      rw [Decoder.byte, if_neg (by omega), if_neg (by omega), if_pos (by omega), and_31, Nat.shiftLeft_eq,
        show (0xC0 + n / 64) % 32 = n / 64 by omega]
    have hpart : n / 64 * 64 ||| n % 64 = n := by
      rw [or_eq_add 6 (a := n / 64 * 64) (by omega) (b := n % 64) (by omega)]
      omega
    rw [List.foldl_cons, hlead, List.foldl_cons, List.foldl_nil, Decoder.byte, if_neg (by omega),
      if_pos (by omega), and_63, show (0x80 + n % 64) % 64 = n % 64 by omega]
    simp only [show ¬ (1 : ℤ) = 2 by decide, if_false, sub_self, if_true, hpart]
    rfl
  · -- a lead byte and two more
    have hlead : d.byte (0xE0 + n / 4096) = { d with conwch := n / 4096 * 4096, sequence := 2 } := by
      rw [Decoder.byte, if_neg (by omega), if_neg (by omega), if_neg (by omega), if_pos (by omega), and_15,
        Nat.shiftLeft_eq, show (0xE0 + n / 4096) % 16 = n / 4096 by omega]
    have hfirst : n / 4096 * 4096 ||| (n / 64 % 64) <<< 6 = n / 64 * 64 := by
      rw [Nat.shiftLeft_eq, or_eq_add 12 (a := n / 4096 * 4096) (by omega) (b := n / 64 % 64 * 2 ^ 6) (by omega)]
      omega
    have hpart : n / 64 * 64 ||| n % 64 = n := by
      rw [or_eq_add 6 (a := n / 64 * 64) (by omega) (b := n % 64) (by omega)]
      omega
    have hmid : ({ d with conwch := n / 4096 * 4096, sequence := 2 } : Decoder).byte (0x80 + n / 64 % 64) =
        { d with conwch := n / 64 * 64, sequence := 1 } := by
      rw [Decoder.byte, if_neg (by omega), if_pos (by omega), and_63,
        show (0x80 + n / 64 % 64) % 64 = n / 64 % 64 by omega]
      simp only [if_true, hfirst, show ¬ (2 - 1 : ℤ) = 0 by decide, if_false]
      rfl
    rw [List.foldl_cons, hlead, List.foldl_cons, hmid, List.foldl_cons, List.foldl_nil, Decoder.byte,
      if_neg (by omega), if_pos (by omega), and_63, show (0x80 + n % 64) % 64 = n % 64 by omega]
    simp only [show ¬ (1 : ℤ) = 2 by decide, if_false, sub_self, if_true, hpart]
    rfl

/-- An escape of the table. -/
theorem wcstol_hexenc : ∀ b < 256, wcstol (UInt16.ofNat (hexDigit (b / 16)).toNat)
    (UInt16.ofNat (hexDigit (b % 16)).toNat) = b := by
  decide +kernel

theorem hexDigit_small : ∀ n < 16, (hexDigit n).toNat < 0x10000 := by decide

theorem decodeFrom_hexenc {b : ℕ} (hb : b < 256) (d : Decoder) (rest : WString) :
    decodeFrom d (hexenc b ++ rest) = decodeFrom (d.byte b) rest := by
  have hhi := hexDigit_small (b / 16) (by omega)
  have hlo := hexDigit_small (b % 16) (by omega)
  rw [hexenc, units_cons, units_cons, units_cons, units_nil, List.append_nil, unitsOf_bmp hhi, unitsOf_bmp hlo]
  show decodeFrom d (0x25 :: _ :: _ :: rest) = _
  rw [decodeFrom_escape, wcstol_hexenc b hb]

theorem decodeFrom_hexencs {bs : List ℕ} (hbs : ∀ b ∈ bs, b < 256) (d : Decoder) (rest : WString) :
    decodeFrom d (bs.flatMap hexenc ++ rest) = decodeFrom (bs.foldl Decoder.byte d) rest := by
  induction bs generalizing d with
  | nil => rfl
  | cons b bs ih =>
    rw [List.flatMap_cons, List.append_assoc, decodeFrom_hexenc (hbs b List.mem_cons_self),
      ih (fun x hx => hbs x (List.mem_cons_of_mem _ hx)), List.foldl_cons]

/-- What comes back for a unit. -/
def blankToPlus (wch : WChar) : WChar := if wch = 0x20 then 0x2B else wch

/-- One unit. -/
theorem decodeFrom_encodeChar (wch : WChar) (d : Decoder) (rest : WString) :
    ∃ d' : Decoder, d'.decoded = d.decoded ++ [blankToPlus wch] ∧
      decodeFrom d (encodeChar wch ++ rest) = decodeFrom d' rest := by
  rw [encodeChar_eq, blankToPlus]
  have hblank : wch.toNat = 0x20 ↔ wch = 0x20 := UInt16.toNat_inj (b := 0x20)
  by_cases hsafe : isSafe wch.toNat = true
  · have hpercent : wch ≠ 0x25 := by
      rintro rfl
      cases hsafe
    have hnot : wch ≠ 0x20 := by
      rintro rfl
      cases hsafe
    rw [if_pos hsafe, if_neg hnot]
    exact ⟨d.push wch, rfl, decodeFrom_push hpercent d rest⟩
  · rw [if_neg hsafe]
    by_cases hspace : wch = 0x20
    · rw [if_pos (hblank.2 hspace), if_pos hspace]
      exact ⟨d.push 0x2B, rfl, decodeFrom_push (by decide) d rest⟩
    · rw [if_neg fun h => hspace (hblank.1 h), if_neg hspace]
      have hlt := wch.toNat_lt
      refine ⟨(unitBytes wch.toNat).foldl Decoder.byte d, ?_, ?_⟩
      · rw [foldl_unitBytes hlt, UInt16.ofNat_toNat]
      · exact decodeFrom_hexencs (fun b hb => unitBytes_lt hlt hb) d rest

/-- **What is encoded comes back, with a plus for a blank.** -/
theorem decode_encode_eq (text : WString) : decode (encode text) = text.map blankToPlus := by
  have hfrom : ∀ d : Decoder, (decodeFrom d (encode text)).decoded = d.decoded ++ text.map blankToPlus := by
    induction text with
    | nil => exact fun d => (List.append_nil _).symm
    | cons wch text ih =>
      intro d
      obtain ⟨d', hd', hdecode⟩ := decodeFrom_encodeChar wch d (encode text)
      rw [encode, List.flatMap_cons]
      change (decodeFrom d (encodeChar wch ++ encode text)).decoded = _
      rw [hdecode, ih, hd', List.append_assoc, List.map_cons, List.singleton_append]
  exact hfrom {}

/-- **A text makes the round trip if and only if it has no blank.** -/
theorem decode_encode (text : WString) : decode (encode text) = text ↔ 0x20 ∉ text := by
  have hfixed : text.map blankToPlus = text ↔ ∀ wch ∈ text, blankToPlus wch = wch := by
    rw [← List.map_inj_left, List.map_id']
  rw [decode_encode_eq, hfixed]
  constructor
  · intro h hmem
    have hblank := h _ hmem
    cases hblank
  · intro h wch hmem
    refine if_neg ?_
    rintro rfl
    exact h hmem

theorem blank_becomes_plus : ¬∀ text : WString, decode (encode text) = text := by
  intro h
  have hblank := h [0x20]
  rw [decode_encode_eq] at hblank
  cases hblank

end CaptureHPC.Cpp.Url
