import Mathlib

/-!
# What the server uses of the Java library

* `Exn`: the exceptions the modelled code can raise; `Fault`: or a recursion without end.
* `digit`, `parseInt`, `parseLong`: decimal numbers in the range of `int` and `long`, in the digits of any script.
* `urlEncode`, `urlDecode`: `java.net.URLEncoder` and `URLDecoder` with UTF-8. `utf8Decode` follows the decoder of
  the library also on malformed bytes.
* `SimpleDateFormat`: the time zone and locale are the machine's, so a format is a
  parameter of the model; `SimpleDateFormat.utc` is the one of a machine on UTC.
-/

namespace CaptureHPC

/-- Exceptions, and `System.exit`. -/
inductive Exn
  | nullPointer
  | numberFormat
  | parse
  | illegalArgument
  | arrayIndexOutOfBounds
  | exit (code : ℤ)
  deriving DecidableEq, Repr

/-- How a call ends that does not return. Running out of fuel is no exception of the program. -/
inductive Fault
  | outOfFuel
  | exception (e : Exn)
  deriving DecidableEq, Repr

/-! ## Numbers -/

/-- The zeros of the scripts that have decimal digits. Those behind U+FFFF are no `char` and are left out. -/
def decimalZeros : List ℕ :=
  [0x30, 0x660, 0x6F0, 0x7C0, 0x966, 0x9E6, 0xA66, 0xAE6, 0xB66, 0xBE6, 0xC66, 0xCE6, 0xD66, 0xE50, 0xED0, 0xF20,
    0x1040, 0x1090, 0x17E0, 0x1810, 0x1946, 0x19D0, 0x1A80, 0x1A90, 0x1B50, 0x1BB0, 0x1C40, 0x1C50, 0xA620, 0xA8D0,
    0xA900, 0xA9D0, 0xAA50, 0xABF0, 0xFF10]

/-- What the 26 letters stand for as digits: of either case, and as full-width letters. -/
def letterValue (n : ℕ) : Option ℕ :=
  ([0x41, 0x61, 0xFF21, 0xFF41].find? fun a => a ≤ n && n < a + 26).map fun a => n - a + 10

/-- `Character.digit`. -/
def digit (radix : ℕ) (c : Char) : Option ℕ :=
  (((decimalZeros.find? fun z => z ≤ c.toNat && c.toNat < z + 10).map (c.toNat - ·)).or (letterValue c.toNat)).filter
    (· < radix)

/-- `Character.isDigit`. -/
def isDecimal (c : Char) : Bool := (digit 10 c).isSome

/-- A nonempty run of digits. -/
def parseDigits (radix : ℕ) (cs : List Char) : Option ℕ :=
  if cs = [] then none else cs.foldlM (fun n c => (digit radix c).map (radix * n + ·)) 0

/-- Digits with an optional sign. -/
def parseSigned (radix : ℕ) (s : List Char) : Option ℤ :=
  match s with
  | [] => none
  | c :: cs =>
    if c = '-' then (parseDigits radix cs).map fun n => -(n : ℤ)
    else if c = '+' then (parseDigits radix cs).map fun n => (n : ℤ)
    else (parseDigits radix (c :: cs)).map fun n => (n : ℤ)

def parseDecimal (s : String) : Option ℤ := parseSigned 10 s.toList

/-- `Integer.parseInt`; `none` is `NumberFormatException`, also for `null`. -/
def parseInt (s : Option String) : Option Int32 :=
  (s.bind parseDecimal).bind fun n =>
    if -2 ^ 31 ≤ n ∧ n < 2 ^ 31 then some (Int32.ofInt n) else none

/-- `Long.parseLong`. -/
def parseLong (s : Option String) : Option ℤ :=
  (s.bind parseDecimal).bind fun n => if -2 ^ 63 ≤ n ∧ n < 2 ^ 63 then some n else none

/-- `processId + ""`. -/
def intToString (n : Int32) : String := toString n.toInt

theorem digit_of_isDigit {c : Char} (h : c.isDigit = true) : digit 10 c = some (c.toNat - '0'.toNat) := by
  obtain ⟨hlow, hhigh⟩ : 0x30 ≤ c.toNat ∧ c.toNat < 0x30 + 10 := by
    simp only [Char.isDigit, Bool.and_eq_true, decide_eq_true_eq, UInt32.le_iff_toNat_le] at h
    exact ⟨h.1, Nat.lt_succ_of_le h.2⟩
  have hzero : (decimalZeros.find? fun z => z ≤ c.toNat && c.toNat < z + 10) = some 0x30 := by
    rw [decimalZeros, List.find?_cons_of_pos]
    simp [hlow, hhigh]
  rw [digit, hzero, Option.map_some, Option.some_or, Option.filter_some, if_pos]
  · rfl
  · simp
    omega

theorem isDecimal_of_isDigit {c : Char} (h : c.isDigit = true) : isDecimal c = true := by
  rw [isDecimal, digit_of_isDigit h]
  rfl

/-- On the digits of ASCII, the value is that of Lean's. -/
theorem parseDigits_of_isDigit {cs : List Char} (hne : cs ≠ []) (h : ∀ c ∈ cs, c.isDigit = true) :
    parseDigits 10 cs = some (Nat.ofDigitChars 10 cs 0) := by
  rw [parseDigits, if_neg hne]
  clear hne
  generalize 0 = n
  induction cs generalizing n with
  | nil => rfl
  | cons c cs ih =>
    rw [List.foldlM_cons, digit_of_isDigit (h c List.mem_cons_self), Option.map_some, Nat.ofDigitChars_cons]
    exact ih (fun x hx => h x (List.mem_cons_of_mem _ hx)) _

theorem parseDigits_toDigits (n : ℕ) : parseDigits 10 (Nat.toDigits 10 n) = some n := by
  have hd : ∀ c ∈ Nat.toDigits 10 n, c.isDigit = true := fun c hc =>
    Nat.isDigit_of_mem_toDigits (by decide) (by decide) hc
  have hne : Nat.toDigits 10 n ≠ [] := List.length_pos_iff.1 Nat.length_toDigits_pos
  rw [parseDigits_of_isDigit hne hd, Nat.ofDigitChars_ten_toDigits]

theorem parseDecimal_toString (n : ℤ) : parseDecimal (toString n) = some n := by
  cases n with
  | ofNat m =>
    have hs : (toString (Int.ofNat m)).toList = Nat.toDigits 10 m := by
      simp [toString, Int.repr, Nat.repr]
    have hdig : ∀ c ∈ Nat.toDigits 10 m, c.isDigit = true := fun c hc =>
      Nat.isDigit_of_mem_toDigits (by decide) (by decide) hc
    unfold parseDecimal parseSigned
    rw [hs]
    cases hm : Nat.toDigits 10 m with
    | nil => have := Nat.length_toDigits_pos (b := 10) (n := m); simp [hm] at this
    | cons c cs =>
      have hc := hdig c (by rw [hm]; exact List.mem_cons_self)
      have h1 : c ≠ '-' := by rintro rfl; simp at hc
      have h2 : c ≠ '+' := by rintro rfl; simp at hc
      simp only [if_neg h1, if_neg h2, ← hm, parseDigits_toDigits]
      rfl
  | negSucc m =>
    have hs : (toString (Int.negSucc m)).toList = '-' :: Nat.toDigits 10 (m + 1) := by
      simp [toString, Int.repr, Nat.repr]
    unfold parseDecimal parseSigned
    rw [hs]
    simp [parseDigits_toDigits, Int.negSucc_eq]

/-- A number the server prints is read back. -/
theorem parseInt_intToString (n : Int32) : parseInt (some (intToString n)) = some n := by
  have h1 := n.le_toInt
  have h2 := n.toInt_lt
  simp only [parseInt, intToString, Option.bind_some, parseDecimal_toString]
  rw [if_pos ⟨h1, h2⟩, Int32.ofInt_toInt]

/-! ## URL encoding -/

/-- The UTF-8 bytes of a character. -/
def utf8Encode (c : Char) : List ℕ :=
  let n := c.toNat
  if n < 0x80 then [n]
  else if n < 0x800 then [0xC0 + n / 64, 0x80 + n % 64]
  else if n < 0x10000 then [0xE0 + n / 4096, 0x80 + n / 64 % 64, 0x80 + n % 64]
  else [0xF0 + n / 262144, 0x80 + n / 4096 % 64, 0x80 + n / 64 % 64, 0x80 + n % 64]

/-- A continuation byte. -/
def isCont (b : ℕ) : Bool := 0x80 ≤ b && b < 0xC0

/-- What malformed bytes decode to. -/
def replacement : Char := Char.ofNat 0xFFFD

/-- The character of a code point. -/
def charOf (n : ℕ) : Char := if n.isValidChar then Char.ofNat n else replacement

/-- The second byte `b1` does not fit behind the first byte `b` of three or four: it is no continuation byte, the
form is not the shortest, or no code point begins so. -/
def isMalformed2 (b b1 : ℕ) : Bool :=
  !isCont b1 || (b == 0xE0 && b1 < 0xA0) || (b == 0xF0 && b1 < 0x90) || (b == 0xF4 && 0x90 ≤ b1) || 0xF5 ≤ b

/-- UTF-8 decoding, where malformed bytes are replaced: as many at once as can begin a character. -/
def utf8Decode : List ℕ → List Char
  | [] => []
  | b :: bs =>
    if b < 0x80 then charOf b :: utf8Decode bs
    else if b < 0xC2 || 0xF8 ≤ b then replacement :: utf8Decode bs
    else if b < 0xE0 then
      match bs with
      | b1 :: r =>
        if isCont b1 then charOf ((b - 0xC0) * 64 + (b1 - 0x80)) :: utf8Decode r
        else replacement :: utf8Decode (b1 :: r)
      | [] => [replacement]
    else if b < 0xF0 then
      match bs with
      | b1 :: b2 :: r =>
        if isMalformed2 b b1 then replacement :: utf8Decode (b1 :: b2 :: r)
        else if !isCont b2 then replacement :: utf8Decode (b2 :: r)
        -- a surrogate is replaced as a whole
        else charOf ((b - 0xE0) * 4096 + (b1 - 0x80) * 64 + (b2 - 0x80)) :: utf8Decode r
      | [b1] => replacement :: if isMalformed2 b b1 then utf8Decode [b1] else []
      | [] => [replacement]
    else
      match bs with
      | b1 :: b2 :: b3 :: r =>
        if isMalformed2 b b1 then replacement :: utf8Decode (b1 :: b2 :: b3 :: r)
        else if !isCont b2 then replacement :: utf8Decode (b2 :: b3 :: r)
        else if !isCont b3 then replacement :: utf8Decode (b3 :: r)
        else charOf ((b - 0xF0) * 262144 + (b1 - 0x80) * 4096 + (b2 - 0x80) * 64 + (b3 - 0x80)) :: utf8Decode r
      | [b1, b2] =>
        replacement :: if isMalformed2 b b1 then utf8Decode [b1, b2] else if !isCont b2 then utf8Decode [b2] else []
      | [b1] => replacement :: if isMalformed2 b b1 then utf8Decode [b1] else []
      | [] => [replacement]

/-- The bytes `URLEncoder` leaves as they are: letters, digits and `.`, `-`, `*`, `_`. -/
def isUnreserved (b : ℕ) : Bool :=
  (0x61 ≤ b && b ≤ 0x7A) || (0x41 ≤ b && b ≤ 0x5A) || (0x30 ≤ b && b ≤ 0x39) ||
    b == 0x2E || b == 0x2D || b == 0x2A || b == 0x5F

/-- An upper-case hexadecimal digit. -/
def hexDigit (n : ℕ) : Char := Char.ofNat (if n < 10 then 0x30 + n else 0x37 + n)

/-- The value of a hexadecimal digit of either case. -/
def hexValue (c : Char) : Option ℕ :=
  let n := c.toNat
  if 0x30 ≤ n ∧ n ≤ 0x39 then some (n - 0x30)
  else if 0x41 ≤ n ∧ n ≤ 0x46 then some (n - 0x37)
  else if 0x61 ≤ n ∧ n ≤ 0x66 then some (n - 0x57)
  else none

/-- The escape of a byte. -/
def escape (b : ℕ) : List Char := ['%', hexDigit (b / 16), hexDigit (b % 16)]

def encodeByte (b : ℕ) : List Char :=
  if isUnreserved b then [Char.ofNat b] else if b = 0x20 then ['+'] else escape b

/-- `URLEncoder.encode(s, "UTF-8")`. -/
def urlEncode (s : String) : String :=
  String.ofList ((s.toList.flatMap utf8Encode).flatMap encodeByte)

/-- The byte of an escape: `Integer.parseInt` of its two characters, radix 16. -/
def escapedByte (h l : Char) : Option ℕ :=
  (parseSigned 16 [h, l]).bind fun v => if v < 0 then none else some v.toNat

/-- The loop of `URLDecoder.decode`, with the bytes of the run of escapes before it, which are decoded together;
`none` is `IllegalArgumentException`. -/
def decodeRuns : List ℕ → List Char → Option (List Char)
  | run, [] => some (utf8Decode run)
  | run, c :: cs =>
    if c = '%' then
      match cs with
      | h :: l :: r => (escapedByte h l).bind fun b => decodeRuns (run ++ [b]) r
      | _ => none
    else (decodeRuns [] cs).map fun text => utf8Decode run ++ (if c = '+' then ' ' else c) :: text

/-- `URLDecoder.decode(s, "UTF-8")`. -/
def urlDecode (s : String) : Option String := (decodeRuns [] s.toList).map String.ofList

/-- `String.equalsIgnoreCase` on encoded URLs, which are ASCII. -/
def equalsIgnoreCase (a b : String) : Bool :=
  a.toList.map Char.toLower == b.toList.map Char.toLower

theorem charOf_toNat (c : Char) : charOf c.toNat = c := by
  have h : c.toNat.isValidChar := c.valid
  unfold charOf
  rw [if_pos h, Char.ofNat_toNat]

theorem utf8Decode_encode_append (c : Char) (bs : List ℕ) :
    utf8Decode (utf8Encode c ++ bs) = c :: utf8Decode bs := by
  have hvalid : c.toNat < 0xD800 ∨ 0xDFFF < c.toNat ∧ c.toNat < 0x110000 := c.valid
  set n := c.toNat with hn
  have hc : ∀ m, m = n → charOf m = c := by
    rintro m rfl; rw [hn]; exact charOf_toNat c
  have hcont : ∀ m, isCont (0x80 + m % 64) = true := by
    intro m
    simp [isCont]
    omega
  unfold utf8Encode
  simp only [← hn]
  split_ifs with h1 h2 h3
  · rw [List.cons_append, List.nil_append, utf8Decode.eq_def (n :: bs)]
    simp only [if_pos h1, hc n rfl]
  · have hb : ¬0xC0 + n / 64 < 0x80 := by omega
    have hb' : (decide (0xC0 + n / 64 < 0xC2) || decide (0xF8 ≤ 0xC0 + n / 64)) = false := by simp; omega
    have hb'' : 0xC0 + n / 64 < 0xE0 := by omega
    simp only [List.cons_append, List.nil_append]
    rw [utf8Decode.eq_def (_ :: _)]
    simp only [if_neg hb, hb', Bool.false_eq_true, if_false, if_pos hb'', hcont, if_true]
    rw [hc _ (by omega)]
  · have hb : ¬0xE0 + n / 4096 < 0x80 := by omega
    have hb' : (decide (0xE0 + n / 4096 < 0xC2) || decide (0xF8 ≤ 0xE0 + n / 4096)) = false := by simp; omega
    have hb'' : ¬0xE0 + n / 4096 < 0xE0 := by omega
    have hb3 : 0xE0 + n / 4096 < 0xF0 := by omega
    have hm : isMalformed2 (0xE0 + n / 4096) (0x80 + n / 64 % 64) = false := by
      simp [isMalformed2, hcont]
      omega
    simp only [List.cons_append, List.nil_append]
    rw [utf8Decode.eq_def (_ :: _)]
    simp only [if_neg hb, hb', Bool.false_eq_true, if_false, if_neg hb'', if_pos hb3, hm, hcont, Bool.not_true]
    rw [hc _ (by omega)]
  · have hb : ¬0xF0 + n / 262144 < 0x80 := by omega
    have hb' : (decide (0xF0 + n / 262144 < 0xC2) || decide (0xF8 ≤ 0xF0 + n / 262144)) = false := by simp; omega
    have hb'' : ¬0xF0 + n / 262144 < 0xE0 := by omega
    have hb3 : ¬0xF0 + n / 262144 < 0xF0 := by omega
    have hm : isMalformed2 (0xF0 + n / 262144) (0x80 + n / 4096 % 64) = false := by
      simp [isMalformed2, hcont]
      omega
    simp only [List.cons_append, List.nil_append]
    rw [utf8Decode.eq_def (_ :: _)]
    simp only [if_neg hb, hb', Bool.false_eq_true, if_false, if_neg hb'', if_neg hb3, hm, hcont, Bool.not_true]
    rw [hc _ (by omega)]

theorem utf8Decode_encode (cs : List Char) : utf8Decode (cs.flatMap utf8Encode) = cs := by
  induction cs with
  | nil => rfl
  | cons c cs ih => rw [List.flatMap_cons, utf8Decode_encode_append, ih]

theorem utf8Encode_lt (c : Char) : ∀ b ∈ utf8Encode c, b < 256 := by
  have hlt : c.toNat < 0x110000 := by
    have h : c.toNat.isValidChar := c.valid
    rcases h with h | h <;> omega
  intro b hb
  unfold utf8Encode at hb
  simp only at hb
  split_ifs at hb <;> simp at hb <;> omega

/-- What decoding needs of an unreserved byte. -/
theorem unreserved_char : ∀ b < 256, isUnreserved b = true →
    Char.ofNat b ≠ '+' ∧ Char.ofNat b ≠ '%' ∧ b < 0x80 := by
  decide +kernel

/-- Escapes of bytes that are read back, whatever the case of their digits. -/
def Escapes (escape : ℕ → List Char) : Prop :=
  ∀ b < 256, ∃ h l, escape b = ['%', h, l] ∧ escapedByte h l = some b

theorem escapes_escape : Escapes escape := by
  have hread : ∀ b < 256, escapedByte (hexDigit (b / 16)) (hexDigit (b % 16)) = some b := by decide +kernel
  exact fun b hb => ⟨_, _, rfl, hread b hb⟩

/-- The bytes of the escapes join the run. -/
theorem decodeRuns_escapes {escape : ℕ → List Char} (hescape : Escapes escape) {bs : List ℕ} (hbs : ∀ b ∈ bs, b < 256)
    (run : List ℕ) (cs : List Char) : decodeRuns run (bs.flatMap escape ++ cs) = decodeRuns (run ++ bs) cs := by
  induction bs generalizing run with
  | nil => rw [List.flatMap_nil, List.nil_append, List.append_nil]
  | cons b bs ih =>
    obtain ⟨hb, hrest⟩ := List.forall_mem_cons.1 hbs
    obtain ⟨h, l, hchars, hread⟩ := hescape b hb
    rw [List.flatMap_cons, hchars, List.append_assoc, List.cons_append, List.cons_append, List.cons_append,
      List.nil_append, decodeRuns.eq_def]
    simp only [if_true]
    rw [hread, Option.bind_some, ih hrest, List.append_assoc, List.singleton_append]

/-- A character that is not escaped ends the run. -/
theorem decodeRuns_char {c : Char} (h : c ≠ '%') (run : List ℕ) (cs : List Char) :
    decodeRuns run (c :: cs) =
      (decodeRuns [] cs).map fun text => utf8Decode run ++ (if c = '+' then ' ' else c) :: text := by
  rw [decodeRuns.eq_def]
  simp only [if_neg h]

/-- **A text whose characters are written as they are, as `+` for a blank, or as the escapes of their bytes, is
decoded.** -/
theorem decodeRuns_texts {escape : ℕ → List Char} (hescape : Escapes escape) {encodeText : Char → List Char}
    (h : ∀ c, encodeText c = (utf8Encode c).flatMap escape ∨ encodeText c = [c] ∧ c ≠ '%' ∧ c ≠ '+' ∨
      encodeText c = ['+'] ∧ c = ' ') (cs before : List Char) :
    decodeRuns (before.flatMap utf8Encode) (cs.flatMap encodeText) = some (before ++ cs) := by
  induction cs generalizing before with
  | nil => rw [List.flatMap_nil, decodeRuns, utf8Decode_encode, List.append_nil]
  | cons c cs ih =>
    rw [List.flatMap_cons]
    rcases h c with hc | ⟨hc, hpercent, hplus⟩ | ⟨hc, rfl⟩
    · have hrun : before.flatMap utf8Encode ++ utf8Encode c = (before ++ [c]).flatMap utf8Encode := by
        rw [List.flatMap_append, List.flatMap_singleton]
      rw [hc, decodeRuns_escapes hescape (utf8Encode_lt c), hrun, ih, List.append_assoc, List.singleton_append]
    · have hrest : decodeRuns [] (cs.flatMap encodeText) = some cs := ih []
      rw [hc, List.singleton_append, decodeRuns_char hpercent, hrest, Option.map_some, utf8Decode_encode, if_neg hplus]
    · have hrest : decodeRuns [] (cs.flatMap encodeText) = some cs := ih []
      rw [hc, List.singleton_append, decodeRuns_char (by decide), hrest, Option.map_some, utf8Decode_encode,
        if_pos rfl]

/-- What `URLEncoder` makes of a character. -/
theorem flatMap_encodeByte (c : Char) :
    (utf8Encode c).flatMap encodeByte = (utf8Encode c).flatMap escape ∨
      (utf8Encode c).flatMap encodeByte = [c] ∧ c ≠ '%' ∧ c ≠ '+' ∨
      (utf8Encode c).flatMap encodeByte = ['+'] ∧ c = ' ' := by
  by_cases hc : c.toNat < 0x80
  · have hbytes : utf8Encode c = [c.toNat] := if_pos hc
    rw [hbytes, List.flatMap_singleton, List.flatMap_singleton, encodeByte, Char.ofNat_toNat]
    split_ifs with hunreserved hspace
    · obtain ⟨hplus, hpercent, -⟩ := unreserved_char c.toNat (by omega) hunreserved
      rw [Char.ofNat_toNat] at hplus hpercent
      exact .inr (.inl ⟨rfl, hpercent, hplus⟩)
    · refine .inr (.inr ⟨rfl, ?_⟩)
      rw [← Char.ofNat_toNat c, hspace]
    · exact .inl rfl
  · -- no byte of the character is one of ASCII
    refine .inl (List.flatMap_congr fun b hb => ?_)
    have hlarge : 0x80 ≤ b := by
      unfold utf8Encode at hb
      simp only [if_neg hc] at hb
      split_ifs at hb <;> simp at hb <;> omega
    have hreserved : ¬isUnreserved b = true := fun h =>
      absurd (unreserved_char b (utf8Encode_lt c b hb) h).2.2 (by omega)
    rw [encodeByte, if_neg hreserved, if_neg (by omega)]

/-- **Decoding undoes encoding.** -/
theorem urlDecode_urlEncode (s : String) : urlDecode (urlEncode s) = some s := by
  have hdecode := decodeRuns_texts escapes_escape flatMap_encodeByte s.toList []
  rw [List.flatMap_nil, List.nil_append] at hdecode
  rw [urlDecode, urlEncode, String.toList_ofList, List.flatMap_assoc, hdecode, Option.map_some, String.ofList_toList]

/-- Malformed bytes: a character that is cut by another, one that is cut by the end of its run, and a form that is
not the shortest. -/
example : urlDecode "%E2%41%E2%82+%C0%80" = some "\uFFFDA\uFFFD \uFFFD\uFFFD" := by decide +kernel

/-! ## Dates -/

/-- A `SimpleDateFormat` with pattern `dd/MM/yyyy HH:mm:ss.S`. A `Date` is its number
of milliseconds. Parsing reads `d/M/yyyy H:m:s.S` as well, since in parsing the number
of letters only matters for adjacent fields. What a format prints can be parsed. -/
structure SimpleDateFormat where
  format : ℤ → String
  parse : String → Option ℤ
  parse_format : ∀ t, (parse (format t)).isSome

/-- The civil date (year, month, day) of a day number, day 0 being 1 January 1970. -/
def civilOfDays (days : ℤ) : ℤ × ℕ × ℕ :=
  let z := days + 719468
  let era := z / 146097
  let doe := (z % 146097).toNat
  let yoe := (doe - doe / 1460 + doe / 36524 - doe / 146096) / 365
  let doy := doe - (365 * yoe + yoe / 4 - yoe / 100)
  let mp := (5 * doy + 2) / 153
  let m := if mp < 10 then mp + 3 else mp - 9
  (yoe + era * 400 + (if m ≤ 2 then 1 else 0), m, doy - (153 * mp + 2) / 5 + 1)

/-- The day number of a civil date. -/
def daysOfCivil (y : ℤ) (m d : ℕ) : ℤ :=
  let y := if m ≤ 2 then y - 1 else y
  let era := y / 400
  let yoe := (y % 400).toNat
  let doy := (153 * (if 2 < m then m - 3 else m + 9) + 2) / 5 + d - 1
  let doe := yoe * 365 + yoe / 4 - yoe / 100 + doy
  era * 146097 + doe - 719468

/-- A number printed with at least `k` digits. -/
def padded (k n : ℕ) : List Char :=
  let ds := Nat.toDigits 10 n
  List.replicate (k - ds.length) '0' ++ ds

/-- The digits at the front of a text, as a number, and the rest. -/
def takeNumber (cs : List Char) : Option (ℕ × List Char) :=
  (parseDigits 10 (cs.takeWhile isDecimal)).map fun n => (n, cs.dropWhile isDecimal)

/-- A number followed by a separator. -/
def takeField (sep : Char) (cs : List Char) : Option (ℕ × List Char) :=
  match takeNumber cs with
  | some (n, c :: r) => if c = sep then some (n, r) else none
  | _ => none

def utcFormat (t : ℤ) : List Char :=
  let ms := (t % 86400000).toNat
  let (y, m, d) := civilOfDays (t / 86400000)
  padded 2 d ++ '/' :: padded 2 m ++ '/' :: padded 4 (if 0 < y then y else 1 - y).toNat ++
    ' ' :: padded 2 (ms / 3600000) ++ ':' :: padded 2 (ms / 60000 % 60) ++
    ':' :: padded 2 (ms / 1000 % 60) ++ '.' :: padded 1 (ms % 1000)

def utcParse (cs : List Char) : Option ℤ := do
  let (d, cs) ← takeField '/' cs
  let (m, cs) ← takeField '/' cs
  let (y, cs) ← takeField ' ' cs
  let (hh, cs) ← takeField ':' cs
  let (mm, cs) ← takeField ':' cs
  let (ss, cs) ← takeField '.' cs
  let (ms, _) ← takeNumber cs
  -- a lenient calendar carries months over into years
  let days := daysOfCivil (y + (m - 1) / 12) ((m - 1) % 12 + 1) 1 + d - 1
  pure (days * 86400000 + hh * 3600000 + mm * 60000 + ss * 1000 + ms)

theorem padded_digits (k n : ℕ) : padded k n ≠ [] ∧ ∀ c ∈ padded k n, c.isDigit = true := by
  constructor
  · intro h
    have := congrArg List.length h
    simp [padded] at this
  · intro c hc
    rcases List.mem_append.1 hc with h | h
    · rw [List.eq_of_mem_replicate h]; decide
    · exact Nat.isDigit_of_mem_toDigits (by decide) (by decide) h

theorem takeNumber_digits {ds r : List Char} (hne : ds ≠ []) (hd : ∀ c ∈ ds, c.isDigit = true)
    (hr : ∀ c ∈ r.head?, isDecimal c = false) : takeNumber (ds ++ r) = some (Nat.ofDigitChars 10 ds 0, r) := by
  have hall : ∀ c ∈ ds, isDecimal c = true := fun c hc => isDecimal_of_isDigit (hd c hc)
  have hrest : r.takeWhile isDecimal = [] ∧ r.dropWhile isDecimal = r := by
    cases r with
    | nil => exact ⟨rfl, rfl⟩
    | cons c r =>
      have hc : ¬isDecimal c = true := by simp [hr c rfl]
      exact ⟨List.takeWhile_cons_of_neg hc, List.dropWhile_cons_of_neg hc⟩
  unfold takeNumber
  rw [List.takeWhile_append_of_pos hall, List.dropWhile_append_of_pos hall, hrest.1, hrest.2, List.append_nil,
    parseDigits_of_isDigit hne hd]
  rfl

theorem takeField_padded (k n : ℕ) (sep : Char) (hs : isDecimal sep = false) (r : List Char) :
    ∃ m, takeField sep (padded k n ++ sep :: r) = some (m, r) := by
  obtain ⟨hne, hd⟩ := padded_digits k n
  have hm := takeNumber_digits (r := sep :: r) hne hd (by simpa using hs)
  exact ⟨Nat.ofDigitChars 10 (padded k n) 0, by simp [takeField, hm]⟩

/-- What `utcFormat` prints can be parsed. -/
theorem utcParse_utcFormat (t : ℤ) : (utcParse (utcFormat t)).isSome := by
  unfold utcFormat
  set ms := (t % 86400000).toNat
  obtain ⟨y, m, d⟩ := civilOfDays (t / 86400000)
  simp only [List.append_assoc, List.cons_append]
  set y' := (if 0 < y then y else 1 - y).toNat
  unfold utcParse
  obtain ⟨n1, h1⟩ := takeField_padded 2 d '/' (by decide) (padded 2 m ++ '/' :: (padded 4 y' ++
    ' ' :: (padded 2 (ms / 3600000) ++ ':' :: (padded 2 (ms / 60000 % 60) ++
    ':' :: (padded 2 (ms / 1000 % 60) ++ '.' :: padded 1 (ms % 1000))))))
  obtain ⟨n2, h2⟩ := takeField_padded 2 m '/' (by decide) (padded 4 y' ++
    ' ' :: (padded 2 (ms / 3600000) ++ ':' :: (padded 2 (ms / 60000 % 60) ++
    ':' :: (padded 2 (ms / 1000 % 60) ++ '.' :: padded 1 (ms % 1000)))))
  obtain ⟨n3, h3⟩ := takeField_padded 4 y' ' ' (by decide)
    (padded 2 (ms / 3600000) ++ ':' :: (padded 2 (ms / 60000 % 60) ++
    ':' :: (padded 2 (ms / 1000 % 60) ++ '.' :: padded 1 (ms % 1000))))
  obtain ⟨n4, h4⟩ := takeField_padded 2 (ms / 3600000) ':' (by decide)
    (padded 2 (ms / 60000 % 60) ++ ':' :: (padded 2 (ms / 1000 % 60) ++ '.' :: padded 1 (ms % 1000)))
  obtain ⟨n5, h5⟩ := takeField_padded 2 (ms / 60000 % 60) ':' (by decide)
    (padded 2 (ms / 1000 % 60) ++ '.' :: padded 1 (ms % 1000))
  obtain ⟨n6, h6⟩ := takeField_padded 2 (ms / 1000 % 60) '.' (by decide) (padded 1 (ms % 1000))
  obtain ⟨hne, hd⟩ := padded_digits 1 (ms % 1000)
  have h7 := takeNumber_digits (r := []) hne hd (by simp)
  rw [List.append_nil] at h7
  simp [h1, h2, h3, h4, h5, h6, h7]

/-- The format of a machine whose time zone is UTC. -/
def SimpleDateFormat.utc : SimpleDateFormat where
  format t := String.ofList (utcFormat t)
  parse s := utcParse s.toList
  parse_format t := by rw [String.toList_ofList]; exact utcParse_utcFormat t

/-- A record's time in the server's tests, read and printed back. -/
example : (SimpleDateFormat.utc.parse "24/04/2008 16:3:0.140").map SimpleDateFormat.utc.format =
    some "24/04/2008 16:03:00.140" := by decide

end CaptureHPC
