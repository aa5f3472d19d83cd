import CaptureHPC.Spec.UrlFactory

/-!
# Which lines the URL factory reads

A `Line` has a URL and any of a client, a visit time and a score, which are joined by `::`.

* `splitTokenizedUrl_text`: the fields are found again if none but the last ends with a colon.
* `getUrlFrom_reads`: what is made of the fields.
* `getUrl_reads`: so a line is read as it is meant if and only if it is `Clear`.
-/

namespace CaptureHPC

open Lib

/-- A decimal number with a point. -/
structure Decimal where
  negative : Bool
  whole : List Char
  fraction : List Char
  whole_ne_nil : whole ≠ []
  fraction_ne_nil : fraction ≠ []
  whole_digits : ∀ c ∈ whole, c.isDigit = true
  fraction_digits : ∀ c ∈ fraction, c.isDigit = true

namespace Decimal

def chars (s : Decimal) : List Char := (if s.negative then ['-'] else []) ++ (s.whole ++ '.' :: s.fraction)

def magnitude (s : Decimal) : ℚ≥0 := (Nat.ofDigitChars 10 (s.whole ++ s.fraction) 0 : ℚ≥0) / (10 ^ s.fraction.length : ℕ)

/-- The double next to the number. -/
def value (s : Decimal) : Binary64 := .ofMagnitude s.negative s.magnitude

end Decimal

/-- The name of a client, which is no number. -/
structure ClientName where
  text : String
  ne_empty : text ≠ ""
  not_integer : parseDecimal text = none
  not_double : parseDouble text = none

/-- The fields of a line. -/
structure Line where
  url : String
  plain : ¬[':', ':'] <:+: url.toList
  client : Option ClientName := none
  visitTime : Option ℤ := none
  score : Option Decimal := none

namespace Line

/-- The visit time and the score. -/
def numbers (l : Line) : List (List Char) :=
  (l.visitTime.toList.map fun t => (toString t).toList) ++ l.score.toList.map Decimal.chars

def fields (l : Line) : List (List Char) := (l.client.toList.map fun c => c.text.toList) ++ l.numbers

def text (l : Line) : String := String.ofList ([':', ':'].intercalate (l.url.toList :: l.fields))

/-- The result has the fields of the line, and the defaults for the missing ones. -/
def Reads (l : Line) (options : UrlOptions) (visitTime : Int32) (id : ℤ) (result : Except UrlException PriorityUrl) : Prop :=
  ∃ vTime : Int32, vTime.toInt = l.visitTime.getD visitTime.toInt ∧
    result = .ok
      { url := l.url
        clientProgram := (l.client.map ClientName.text).getD options.clientDefault
        visitTime := vTime
        priority := (l.score.map Decimal.value).getD UrlFactory.defaultPriority
        id := id }

/-- No field is mistaken for another. -/
structure Clear (l : Line) (validUri : String → Bool) (options : UrlOptions) (visitTime : Int32) : Prop where
  valid : validUri l.url = true
  url_end : l.fields ≠ [] → ¬[':'] <:+ l.url.toList
  client_plain : ∀ c ∈ l.client, ¬[':', ':'] <:+: c.text.toList
  client_end : ∀ c ∈ l.client, l.visitTime.isSome ∨ l.score.isSome → ¬[':'] <:+ c.text.toList
  time : ∀ t ∈ l.visitTime, -2 ^ 31 ≤ t ∧ t < 2 ^ 31
  client_given : l.client = none → l.score.isSome → ∀ t ∈ l.visitTime,
    options.clientDefault = toString t ∧ visitTime.toInt = t

end Line

/-! ## Numbers -/

theorem toString_chars (t : ℤ) : ∃ n : ℕ, (toString t).toList = (if t < 0 then ['-'] else []) ++ Nat.toDigits 10 n := by
  cases t with
  | ofNat n => exact ⟨n, by simp [toString, Int.repr, Nat.repr]⟩
  | negSucc n => exact ⟨n + 1, by simp [toString, Int.repr, Nat.repr, Int.negSucc_lt_zero]⟩

theorem isDigit_ne {c : Char} (h : c.isDigit = true) : c ≠ ':' ∧ c ≠ '-' ∧ c ≠ '+' ∧ c ≠ '.' := by
  refine ⟨?_, ?_, ?_, ?_⟩ <;> (rintro rfl; revert h; decide)

theorem colon_notMem_toString (t : ℤ) : ':' ∉ (toString t).toList := by
  obtain ⟨n, hn⟩ := toString_chars t
  rw [hn, List.mem_append, not_or]
  constructor
  · split_ifs <;> decide
  · intro hmem
    exact (isDigit_ne (Nat.isDigit_of_mem_toDigits (by decide) (by decide) hmem)).1 rfl

theorem toString_ne_nil (t : ℤ) : (toString t).toList ≠ [] := by
  obtain ⟨n, hn⟩ := toString_chars t
  rw [hn]
  exact List.append_ne_nil_of_right_ne_nil _ (List.length_pos_iff.1 Nat.length_toDigits_pos)

/-- An integer is read if it is an `int`. -/
theorem parseInt_repr {t : ℤ} (ht : -2 ^ 31 ≤ t ∧ t < 2 ^ 31) : ∃ v : Int32, v.toInt = t ∧ parseInt t.repr = some v := by
  refine ⟨Int32.ofInt t, Int32.toInt_ofInt_of_le ht.1 ht.2, ?_⟩
  rw [← Int.toString_eq_repr, parseInt, Option.bind_some, parseDecimal_toString, Option.bind_some, if_pos ht]

theorem repr_ne_empty (t : ℤ) : t.repr ≠ "" := by
  rw [← Int.toString_eq_repr]
  exact fun h => toString_ne_nil t (by rw [h]; rfl)

theorem parseInt_repr_eq_none {t : ℤ} (ht : ¬(-2 ^ 31 ≤ t ∧ t < 2 ^ 31)) : parseInt t.repr = none := by
  rw [← Int.toString_eq_repr, parseInt, Option.bind_some, parseDecimal_toString, Option.bind_some, if_neg ht]

/-- A text with a point is no integer. -/
theorem parseDigits_point {cs : List Char} (h : '.' ∈ cs) : parseDigits 10 cs = none := by
  rw [parseDigits, if_neg (List.ne_nil_of_mem h)]
  generalize 0 = n
  induction cs generalizing n with
  | nil => cases h
  | cons c cs ih =>
    rw [List.foldlM_cons]
    rcases List.mem_cons.1 h with rfl | h
    · have hpoint : digit 10 '.' = none := by decide
      rw [hpoint]
      rfl
    · cases digit 10 c with
      | none => rfl
      | some d => exact ih h _

theorem parseDecimal_point {s : String} (h : '.' ∈ s.toList) : parseDecimal s = none := by
  unfold parseDecimal parseSigned
  cases hs : s.toList with
  | nil => rfl
  | cons c cs =>
    rw [hs] at h
    have hall := parseDigits_point h
    simp only
    split_ifs with hminus hplus
    · rw [parseDigits_point ((List.mem_cons.1 h).resolve_left (by rw [hminus]; decide))]
      rfl
    · rw [parseDigits_point ((List.mem_cons.1 h).resolve_left (by rw [hplus]; decide))]
      rfl
    · rw [hall]
      rfl

theorem parseInt_point {s : String} (h : '.' ∈ s.toList) : parseInt s = none := by
  rw [parseInt, Option.bind_some, parseDecimal_point h, Option.bind_none]

/-- A text that starts with a colon is no integer. -/
theorem parseInt_colon (cs : List Char) : parseInt (String.ofList (':' :: cs)) = none := by
  have hcolon : digit 10 ':' = none := by decide
  simp [parseInt, parseDecimal, parseSigned, parseDigits, hcolon]

theorem trim_eq_self {cs : List Char} (h : ∀ c ∈ cs, TextHandler.isBlank c = false) : TextHandler.trim cs = cs := by
  have hfront : cs.dropWhile TextHandler.isBlank = cs := by
    rw [List.dropWhile_eq_self_iff]
    intro hlen
    rw [h _ (List.getElem_mem _)]
    exact Bool.false_ne_true
  have hback : cs.reverse.dropWhile TextHandler.isBlank = cs.reverse := by
    rw [List.dropWhile_eq_self_iff]
    intro hlen
    rw [h _ (List.mem_reverse.1 (List.getElem_mem _))]
    exact Bool.false_ne_true
  rw [TextHandler.trim, hfront, hback, List.reverse_reverse]

/-- Nor is it a double. -/
theorem parseDouble_colon (cs : List Char) : parseDouble (String.ofList (':' :: cs)) = none := by
  have htrim : ∃ rest, TextHandler.trim (':' :: cs) = ':' :: rest := by
    have hprefix : (':' :: cs).rdropWhile TextHandler.isBlank <+: ':' :: cs := List.rdropWhile_prefix _ _
    cases h : (':' :: cs).rdropWhile TextHandler.isBlank with
    | nil => exact absurd (List.rdropWhile_eq_nil_iff.1 h ':' List.mem_cons_self) (by decide)
    | cons c rest =>
      rw [h, List.cons_prefix_cons] at hprefix
      obtain ⟨rfl, -⟩ := hprefix
      exact ⟨rest, h⟩
  obtain ⟨rest, hrest⟩ := htrim
  rw [parseDouble, String.toList_ofList, hrest]
  rfl

namespace ParseDouble

/-- Without the letters of the other forms a text is read as a decimal number. -/
theorem unsigned_eq_decimal (negative : Bool) {cs : List Char} (h : ∀ c ∈ cs, c ≠ 'N' ∧ c ≠ 'I' ∧ c ≠ 'x' ∧ c ≠ 'X') :
    unsigned negative cs = (decimal cs).map (Binary64.ofMagnitude negative) := by
  have hnan : cs ≠ ['N', 'a', 'N'] := by
    rintro rfl
    exact (h 'N' (by simp)).1 rfl
  have hinfinity : cs ≠ ['I', 'n', 'f', 'i', 'n', 'i', 't', 'y'] := by
    rintro rfl
    exact (h 'I' (by simp)).2.1 rfl
  unfold unsigned
  rw [if_neg hnan, if_neg hinfinity]
  split
  · exact absurd rfl (h 'x' (by simp)).2.2.1
  · exact absurd rfl (h 'X' (by simp)).2.2.2
  · rfl

theorem span_digits {cs rest : List Char} (hcs : ∀ c ∈ cs, c.isDigit = true) (hrest : ∀ c ∈ rest.head?, c.isDigit = false) :
    (cs ++ rest).span Char.isDigit = (cs, rest) := by
  have hnone : rest.takeWhile Char.isDigit = [] ∧ rest.dropWhile Char.isDigit = rest := by
    cases rest with
    | nil => exact ⟨rfl, rfl⟩
    | cons c rest =>
      have hc := hrest c rfl
      rw [List.takeWhile_cons, List.dropWhile_cons, hc]
      exact ⟨rfl, rfl⟩
  rw [List.span_eq_takeWhile_dropWhile, List.takeWhile_append_of_pos hcs, List.dropWhile_append_of_pos hcs,
    hnone.1, hnone.2, List.append_nil]

theorem decimal_point {whole fraction : List Char} (hne : whole ≠ []) (hwhole : ∀ c ∈ whole, c.isDigit = true)
    (hfraction : ∀ c ∈ fraction, c.isDigit = true) : decimal (whole ++ '.' :: fraction) =
    some ((Nat.ofDigitChars 10 (whole ++ fraction) 0 : ℚ≥0) / 10 ^ fraction.length) := by
  have hback : (fraction ++ []).span Char.isDigit = (fraction, []) := span_digits hfraction (by simp)
  have hfront : (whole ++ '.' :: fraction).span Char.isDigit = (whole, '.' :: fraction) :=
    span_digits hwhole (by simp)
  rw [List.append_nil] at hback
  have hdigits : digits Char.isDigit (whole ++ '.' :: fraction) = some ((whole, fraction), []) := by
    simp only [digits, hfront, hback]
    rw [if_neg (fun h => hne h.1)]
  rw [decimal, hdigits]
  simp [isSuffix, div_eq_mul_inv]

end ParseDouble

namespace Decimal

theorem mem_chars {s : Decimal} {c : Char} (h : c ∈ s.chars) : c = '-' ∨ c = '.' ∨ c.isDigit = true := by
  rw [chars, List.mem_append, List.mem_append, List.mem_cons] at h
  rcases h with hsign | hwhole | hpoint | hfraction
  · split_ifs at hsign
    · exact .inl (List.mem_singleton.1 hsign)
    · cases hsign
  · exact .inr (.inr (s.whole_digits c hwhole))
  · exact .inr (.inl hpoint)
  · exact .inr (.inr (s.fraction_digits c hfraction))

theorem point_mem_chars (s : Decimal) : '.' ∈ s.chars := by simp [chars]

theorem colon_notMem_chars (s : Decimal) : ':' ∉ s.chars := by
  intro h
  rcases mem_chars h with hminus | hpoint | hdigit
  · cases hminus
  · cases hpoint
  · exact (isDigit_ne hdigit).1 rfl

theorem isDigit_bounds {c : Char} (h : c.isDigit = true) : 48 ≤ c.toNat ∧ c.toNat ≤ 57 := by
  simpa [Char.isDigit, UInt32.le_iff_toNat_le] using h

/-- **The text of a decimal number is read as the double next to it.** -/
theorem parseDouble_chars (s : Decimal) : parseDouble (String.ofList s.chars) = some s.value := by
  have hblank : ∀ c ∈ s.chars, TextHandler.isBlank c = false := by
    intro c hc
    rcases mem_chars hc with rfl | rfl | hdigit
    · rfl
    · rfl
    · have hbounds := isDigit_bounds hdigit
      rw [TextHandler.isBlank, decide_eq_false_iff_not]
      omega
  have hletters : ∀ c ∈ s.whole ++ '.' :: s.fraction, c ≠ 'N' ∧ c ≠ 'I' ∧ c ≠ 'x' ∧ c ≠ 'X' := by
    intro c hc
    have hchars : c ∈ s.chars := List.mem_append_right _ hc
    rcases mem_chars hchars with rfl | rfl | hdigit
    · decide
    · decide
    · refine ⟨?_, ?_, ?_, ?_⟩ <;> (rintro rfl; revert hdigit; decide)
  have hunsigned : ∀ negative, ParseDouble.unsigned negative (s.whole ++ '.' :: s.fraction) =
      some (.ofMagnitude negative s.magnitude) := by
    intro negative
    rw [ParseDouble.unsigned_eq_decimal negative hletters,
      ParseDouble.decimal_point s.whole_ne_nil s.whole_digits s.fraction_digits, magnitude, Nat.cast_pow,
      Nat.cast_ofNat]
    rfl
  rw [parseDouble, String.toList_ofList, trim_eq_self hblank, chars, value]
  cases hneg : s.negative with
  | true => exact hunsigned true
  | false =>
    obtain ⟨d, whole, hwhole⟩ := List.exists_cons_of_ne_nil s.whole_ne_nil
    have hd := isDigit_ne (s.whole_digits d (by rw [hwhole]; exact List.mem_cons_self))
    rw [← hunsigned false, hwhole]
    simp only [Bool.false_eq_true, if_false, List.nil_append, List.cons_append]
    split
    · rename_i heq
      exact absurd (List.cons.inj heq).1 hd.2.1
    · rename_i heq
      exact absurd (List.cons.inj heq).1 hd.2.2.1
    · rfl

end Decimal

/-! ## The fields of a line -/

theorem not_infix_append_colon {part : List Char} :
    ¬[':', ':'] <:+: part ++ [':'] ↔ ¬[':', ':'] <:+: part ∧ ¬[':'] <:+ part := by
  have hend : [':', ':'] <:+ part ++ [':'] ↔ [':'] <:+ part := by
    rw [show [':', ':'] = [':'] ++ [':'] from rfl]
    constructor
    · rintro ⟨before, hbefore⟩
      rw [← List.append_assoc, List.append_cancel_right_eq] at hbefore
      exact ⟨before, hbefore⟩
    · rintro ⟨before, hbefore⟩
      exact ⟨before, by rw [← List.append_assoc, hbefore]⟩
  rw [List.infix_concat_iff, hend, not_or, and_comm]

theorem not_infix_of_notMem {part : List Char} (h : ':' ∉ part) : ¬[':', ':'] <:+: part ++ [':'] := by
  rw [not_infix_append_colon]
  exact ⟨fun hin => h (hin.subset List.mem_cons_self), fun hend => h (hend.subset List.mem_cons_self)⟩

namespace UrlFactory

/-- Joined fields are found again, if they are not empty and only the last may end with a colon. -/
theorem splitTokenizedUrl_intercalate {first : List Char} {fields : List (List Char)}
    (h : ∀ part ∈ (first :: fields).dropLast, ¬[':', ':'] <:+: part ++ [':'])
    (hlast : ∀ part ∈ first :: fields, ¬[':', ':'] <:+: part) (hne : fields.getLast? ≠ some []) :
    splitTokenizedUrl (String.ofList ([':', ':'].intercalate (first :: fields))) = (first :: fields).map String.ofList := by
  have hparts := List.dropLast_concat_getLast (List.cons_ne_nil first fields)
  have hsplit := split_intercalate (List.cons_ne_nil _ _) h (hlast _ (List.getLast_mem (List.cons_ne_nil first fields)))
  rw [hparts] at hsplit
  rw [splitTokenizedUrl, String.toList_ofList, splitText, hsplit]
  cases fields with
  | nil => rfl
  | cons field fields =>
    congr 1
    refine List.rdropWhile_eq_self_iff.2 fun hcons => ?_
    rw [List.getLast_cons (List.cons_ne_nil field fields), List.isEmpty_iff]
    intro hnil
    exact hne (by rw [List.getLast?_eq_some_getLast (List.cons_ne_nil field fields), hnil])

/-- The first part is the first token. -/
theorem split_of_head? {text url : String} (h : (splitTokenizedUrl text).head? = some url) :
    ∃ rest, split [':', ':'] text.toList = url.toList :: rest := by
  obtain ⟨part, rest, hsplit, -⟩ := split_eq_cons (List.cons_ne_nil ':' [':']) text.toList
  have hhead : ∀ tokens, tokens <+: part :: rest → (tokens.map String.ofList).head? = some url → part = url.toList := by
    intro tokens hprefix hurl
    cases tokens with
    | nil => cases hurl
    | cons token tokens =>
      rw [← (List.cons_prefix_cons.1 hprefix).1, ← Option.some.inj hurl, String.toList_ofList]
  rw [splitTokenizedUrl, splitText, hsplit] at h
  refine ⟨rest, ?_⟩
  rw [hsplit]
  congr 1
  revert h
  split
  · rename_i heq
    exact hhead _ (by rw [heq])
  · exact hhead _ (List.rdropWhile_prefix _ _)

/-- No token has a separator in it. -/
theorem not_infix_of_mem_splitTokenizedUrl {text token : String} (h : token ∈ splitTokenizedUrl text) :
    ¬[':', ':'] <:+: token.toList := by
  obtain ⟨part, hpart, rfl⟩ := List.mem_map.1 h
  rw [String.toList_ofList]
  refine not_infix_of_mem_split (List.cons_ne_nil _ _) (l := text.toList) ?_
  revert hpart
  rw [splitText]
  split
  · rename_i heq
    rw [heq]
    exact id
  · exact fun hmem => (List.rdropWhile_prefix _ _).subset hmem

end UrlFactory

namespace Line

variable {l : Line}

theorem number_plain {field : List Char} (h : field ∈ l.numbers) : ':' ∉ field ∧ field ≠ [] := by
  rcases List.mem_append.1 h with ht | hs
  · obtain ⟨t, -, rfl⟩ := List.mem_map.1 ht
    exact ⟨colon_notMem_toString t, toString_ne_nil t⟩
  · obtain ⟨s, -, rfl⟩ := List.mem_map.1 hs
    exact ⟨s.colon_notMem_chars, List.ne_nil_of_mem s.point_mem_chars⟩

theorem number_end {field : List Char} (h : field ∈ l.numbers) : ¬[':'] <:+ field := fun hend =>
  (number_plain h).1 (hend.subset List.mem_cons_self)

theorem numbers_ne_nil : l.numbers ≠ [] ↔ l.visitTime.isSome ∨ l.score.isSome := by
  obtain ⟨-, -, -, visitTime, score⟩ := l
  cases visitTime <;> cases score <;> simp [numbers]

theorem field_ne_nil {field : List Char} (h : field ∈ l.fields) : field ≠ [] := by
  rcases List.mem_append.1 h with hc | hn
  · obtain ⟨c, -, rfl⟩ := List.mem_map.1 hc
    exact fun hnil => c.ne_empty (String.toList_eq_nil_iff.1 hnil)
  · exact (number_plain hn).2

/-- **The fields are found again if none but the last ends with a colon.** -/
theorem splitTokenizedUrl_text (hurl : l.fields ≠ [] → ¬[':'] <:+ l.url.toList)
    (hplain : ∀ c ∈ l.client, ¬[':', ':'] <:+: c.text.toList)
    (hclient : ∀ c ∈ l.client, l.visitTime.isSome ∨ l.score.isSome → ¬[':'] <:+ c.text.toList) :
    UrlFactory.splitTokenizedUrl l.text = l.url :: l.fields.map String.ofList := by
  have hall : ∀ part ∈ l.url.toList :: l.fields, ¬[':', ':'] <:+: part := by
    intro part hpart
    rw [fields, List.mem_cons, List.mem_append] at hpart
    rcases hpart with rfl | hc | hn
    · exact l.plain
    · obtain ⟨c, hmem, rfl⟩ := List.mem_map.1 hc
      exact hplain c (Option.mem_toList.1 hmem)
    · exact (not_infix_append_colon.1 (not_infix_of_notMem (number_plain hn).1)).1
  have hfront : ∀ part ∈ (l.url.toList :: l.fields).dropLast, ¬[':', ':'] <:+: part ++ [':'] := by
    intro part hpart
    refine not_infix_append_colon.2 ⟨hall part (List.mem_of_mem_dropLast hpart), ?_⟩
    have hfields : l.fields ≠ [] := by
      intro hnil
      rw [hnil] at hpart
      cases hpart
    rw [List.dropLast_cons_of_ne_nil hfields, List.mem_cons] at hpart
    rcases hpart with rfl | hpart
    · exact hurl hfields
    cases hc : l.client with
    | none =>
      rw [fields, hc] at hpart
      exact number_end (List.mem_of_mem_dropLast hpart)
    | some c =>
      have hcons : l.fields = c.text.toList :: l.numbers := by rw [fields, hc]; rfl
      have hnumbers : l.numbers ≠ [] := by
        intro hnil
        rw [hcons, hnil] at hpart
        cases hpart
      rw [hcons, List.dropLast_cons_of_ne_nil hnumbers, List.mem_cons] at hpart
      rcases hpart with rfl | hpart
      · exact hclient c hc (numbers_ne_nil.1 hnumbers)
      · exact number_end (List.mem_of_mem_dropLast hpart)
  have hlast : l.fields.getLast? ≠ some [] := fun h => field_ne_nil (List.mem_of_getLast? h) rfl
  rw [text, UrlFactory.splitTokenizedUrl_intercalate hfront hall hlast, List.map_cons, String.ofList_toList]

end Line

namespace UrlFactory

variable {validUri : String → Bool} {options : UrlOptions}

@[simp] theorem catchNumberFormat_error (handler : Except UrlException PriorityUrl) :
    catchNumberFormat (.error .numberFormat) handler = handler := rfl

@[simp] theorem catchNumberFormat_newUrl (u : String) (c : Option String) (t : Int32) (p : Binary64) (n : ℤ)
    (handler : Except UrlException PriorityUrl) :
    catchNumberFormat (newUrl validUri options (some u) c t p n) handler = newUrl validUri options (some u) c t p n := by
  by_cases hvalid : validUri u = true <;> simp [newUrl, hvalid, catchNumberFormat]

@[simp] theorem parseUrl_some (u c : Option String) (t : Int32) (p : Binary64) (n : ℤ) :
    parseUrl validUri options u c (some t) (some p) (some n) = newUrl validUri options u c t p n := rfl

@[simp] theorem parseUrl_none_time (u c : Option String) (p : Option Binary64) (id : Option ℤ) :
    parseUrl validUri options u c none p id = .error .numberFormat := rfl

@[simp] theorem parseUrl_none_score (u c : Option String) (t : Option Int32) (id : Option ℤ) :
    parseUrl validUri options u c t none id = .error .numberFormat := by cases t <;> rfl

theorem parseUrl_eq_ok {u c : Option String} {t : Option Int32} {p : Option Binary64} {id : Option ℤ} {x : PriorityUrl}
    (h : parseUrl validUri options u c t p id = .ok x) :
    u = some x.url ∧ (x.clientProgram = options.clientDefault ∨ c = some x.clientProgram) := by
  unfold parseUrl newUrl at h
  split at h
  · split at h
    · cases h
    · split_ifs at h with hvalid hdefault
      · cases h
        exact ⟨rfl, .inl rfl⟩
      · cases h
        rw [not_or] at hdefault
        obtain ⟨c, rfl⟩ := Option.ne_none_iff_exists'.1 hdefault.1
        exact ⟨rfl, .inr rfl⟩
  · cases h

theorem catchNumberFormat_eq_ok {a b : Except UrlException PriorityUrl} {x : PriorityUrl}
    (h : catchNumberFormat a b = .ok x) : a = .ok x ∨ b = .ok x := by
  unfold catchNumberFormat at h
  split at h
  · exact .inr h
  · exact .inl h

/-- The URL is the first token, and the client is a token or the default. -/
theorem getUrlFrom_eq_ok {visitTime : Int32} {splitUrl : List String} {id : Option ℤ} {x : PriorityUrl}
    (h : getUrlFrom validUri options visitTime splitUrl id = .ok x) :
    splitUrl.head? = some x.url ∧ (x.clientProgram = options.clientDefault ∨ x.clientProgram ∈ splitUrl) := by
  have htoken : ∀ {u : String} {c : Option String} {t p}, parseUrl validUri options (some u) c t p id = .ok x →
      (∀ token ∈ c, token ∈ splitUrl) → some u = some x.url ∧
        (x.clientProgram = options.clientDefault ∨ x.clientProgram ∈ splitUrl) := by
    intro u c t p hparse hc
    obtain ⟨hu, hclient⟩ := parseUrl_eq_ok hparse
    exact ⟨hu, hclient.imp_right fun hsome => hc _ hsome⟩
  unfold getUrlFrom at h
  split at h
  · exact htoken h (by simp)
  · rcases catchNumberFormat_eq_ok h with h | h
    · exact htoken h (by simp)
    · rcases catchNumberFormat_eq_ok h with h | h
      · exact htoken h (by simp)
      · exact htoken h (by simp)
  · rcases catchNumberFormat_eq_ok h with h | h
    · exact htoken h (by simp)
    · rcases catchNumberFormat_eq_ok h with h | h
      · exact htoken h (by simp)
      · exact htoken h (by simp)
  · exact htoken h (by simp)
  · exact absurd (parseUrl_eq_ok h).1 (by simp)

end UrlFactory

namespace Line

variable {l : Line} {validUri : String → Bool} {options : UrlOptions}

theorem not_reads_error (visitTime : Int32) (n : ℤ) (e : UrlException) : ¬l.Reads options visitTime n (.error e) := by
  rintro ⟨_, _, h⟩
  cases h

/-- The fields a URL is made with. -/
theorem reads_newUrl {visitTime vTime : Int32} {n : ℤ} {c : Option String} {p : Binary64} (hc : c ≠ some "") :
    l.Reads options visitTime n (UrlFactory.newUrl validUri options (some l.url) c vTime p n) ↔
      validUri l.url = true ∧ c.getD options.clientDefault = (l.client.map ClientName.text).getD options.clientDefault ∧
        vTime.toInt = l.visitTime.getD visitTime.toInt ∧
        p = (l.score.map Decimal.value).getD UrlFactory.defaultPriority := by
  have hdefault : (if c = none ∨ c = some "" then options.clientDefault else c.getD "") = c.getD options.clientDefault := by
    cases c with
    | none => simp
    | some c => simp [show c ≠ "" from fun h => hc (by rw [h])]
  unfold UrlFactory.newUrl Reads
  simp only [hdefault]
  split_ifs with hvalid
  · simp only [hvalid, true_and, Except.ok.injEq, PriorityUrl.mk.injEq, Url.mk.injEq, and_true]
    constructor
    · rintro ⟨t, ht, ⟨hc, rfl⟩, hp⟩
      exact ⟨hc, ht, hp⟩
    · rintro ⟨hc, ht, hp⟩
      exact ⟨vTime, ht, ⟨hc, rfl⟩, hp⟩
  · simp [hvalid]

/-- No other visit time is in the place of one that is no `int`. -/
theorem toInt_ne {t : ℤ} (ht : ¬(-2 ^ 31 ≤ t ∧ t < 2 ^ 31)) (v : Int32) : v.toInt ≠ t := by
  rintro rfl
  exact ht ⟨v.le_toInt, v.toInt_lt⟩

/-- **What is made of the fields**, when each is in its place. -/
theorem getUrlFrom_reads (l : Line) (visitTime : Int32) (n : ℤ) :
    l.Reads options visitTime n
        (UrlFactory.getUrlFrom validUri options visitTime (l.url :: l.fields.map String.ofList) (some n)) ↔
      validUri l.url = true ∧ (∀ t ∈ l.visitTime, -2 ^ 31 ≤ t ∧ t < 2 ^ 31) ∧
        (l.client = none → l.score.isSome → ∀ t ∈ l.visitTime,
          options.clientDefault = toString t ∧ visitTime.toInt = t) := by
  have hint : ∀ s : Decimal, parseInt (String.ofList s.chars) = none := fun s =>
    parseInt_point (by rw [String.toList_ofList]; exact s.point_mem_chars)
  have hname : ∀ c : ClientName, parseInt c.text = none := fun c => by
    rw [parseInt, Option.bind_some, c.not_integer, Option.bind_none]
  have hne : ∀ c : ClientName, some c.text ≠ some "" := fun c h => c.ne_empty (Option.some.inj h)
  cases hc : l.client with
  | none =>
    cases ht : l.visitTime with
    | none =>
      cases hs : l.score with
      | none =>
        -- <url>
        simp [fields, numbers, hc, ht, hs, UrlFactory.getUrlFrom, reads_newUrl]
      | some s =>
        -- <url>::<score>
        simp [fields, numbers, hc, ht, hs, UrlFactory.getUrlFrom, hint, s.parseDouble_chars, reads_newUrl]
    | some t =>
      cases hs : l.score with
      | none =>
        -- <url>::<visit time>; a number that is no int is a score
        by_cases hrange : -2 ^ 31 ≤ t ∧ t < 2 ^ 31
        · obtain ⟨v, hv, hparse⟩ := parseInt_repr hrange
          norm_num at hrange
          simp [fields, numbers, hc, ht, hs, UrlFactory.getUrlFrom, hparse, reads_newUrl, hv, hrange]
        · have hparse := parseInt_repr_eq_none hrange
          have hother := toInt_ne hrange visitTime
          norm_num at hrange
          cases hd : parseDouble t.repr <;>
            simpa [fields, numbers, hc, ht, hs, UrlFactory.getUrlFrom, hparse, hd, reads_newUrl, repr_ne_empty,
              hother] using fun _ => hrange
      | some s =>
        -- <url>::<visit time>::<score>; the visit time is taken for a client
        have hint' : visitTime.toInt = t → -2147483648 ≤ t ∧ t < 2147483648 := by
          rintro rfl
          exact ⟨visitTime.le_toInt, visitTime.toInt_lt⟩
        simp only [fields, numbers, hc, ht, hs, UrlFactory.getUrlFrom, Option.toList, List.map_cons, List.map_nil,
          List.nil_append, List.cons_append, hint, s.parseDouble_chars, UrlFactory.parseUrl_none_time,
          UrlFactory.catchNumberFormat_error, UrlFactory.parseUrl_some, UrlFactory.catchNumberFormat_newUrl]
        rw [reads_newUrl (by simpa using repr_ne_empty t)]
        simp [hc, ht, hs]
        intro _
        constructor
        · exact fun h => ⟨hint' h.2, h.1.symm, h.2⟩
        · exact fun h => ⟨h.2.1.symm, h.2.2⟩
  | some c =>
    cases ht : l.visitTime with
    | none =>
      cases hs : l.score with
      | none =>
        -- <url>::<client>
        simp [fields, numbers, hc, ht, hs, UrlFactory.getUrlFrom, hname, c.not_double, reads_newUrl, hne]
      | some s =>
        -- <url>::<client>::<score>
        simp [fields, numbers, hc, ht, hs, UrlFactory.getUrlFrom, hint, s.parseDouble_chars, reads_newUrl, hne]
    | some t =>
      by_cases hrange : -2 ^ 31 ≤ t ∧ t < 2 ^ 31
      · obtain ⟨v, hv, hparse⟩ := parseInt_repr hrange
        norm_num at hrange
        cases hs : l.score with
        | none =>
          -- <url>::<client>::<visit time>
          simp [fields, numbers, hc, ht, hs, UrlFactory.getUrlFrom, hparse, reads_newUrl, hv, hrange, hne]
        | some s =>
          -- <url>::<client>::<visit time>::<score>
          simp [fields, numbers, hc, ht, hs, UrlFactory.getUrlFrom, hparse, s.parseDouble_chars, reads_newUrl, hv,
            hrange, hne]
      · have hparse := parseInt_repr_eq_none hrange
        have hother := toInt_ne hrange visitTime
        norm_num at hrange
        cases hs : l.score with
        | none =>
          cases hd : parseDouble t.repr <;>
            simpa [fields, numbers, hc, ht, hs, UrlFactory.getUrlFrom, hparse, hd, reads_newUrl, hname, hne, hother,
              not_reads_error] using fun _ => hrange
        | some s =>
          simpa [fields, numbers, hc, ht, hs, UrlFactory.getUrlFrom, hparse, not_reads_error] using fun _ => hrange

/-! ## Fields that end with a colon -/

theorem text_toList (l : Line) : l.text.toList = [':', ':'].intercalate (l.url.toList :: l.fields) := by
  rw [text, String.toList_ofList]

/-- A URL that ends with a colon is cut off before it. -/
theorem url_end_of_reads {visitTime : Int32} {n : ℤ} {id : Option ℤ} (hfields : l.fields ≠ [])
    (h : l.Reads options visitTime n
      (UrlFactory.getUrlFrom validUri options visitTime (UrlFactory.splitTokenizedUrl l.text) id)) :
    ¬[':'] <:+ l.url.toList := by
  rintro ⟨before, hbefore⟩
  obtain ⟨_, -, hok⟩ := h
  obtain ⟨rest, hsplit⟩ := UrlFactory.split_of_head? (UrlFactory.getUrlFrom_eq_ok hok).1
  have hprefix : before ++ [':', ':'] <+: l.text.toList := by
    refine ⟨':' :: [':', ':'].intercalate l.fields, ?_⟩
    rw [text_toList, List.intercalate_cons_of_ne_nil hfields, ← hbefore]
    simp
  have hlen := length_head_le (List.cons_ne_nil _ _) hprefix hsplit
  rw [← hbefore, List.length_append, List.length_singleton] at hlen
  omega

/-- A client with a separator in it is not found. -/
theorem client_plain_of_reads {visitTime : Int32} {n : ℤ} {id : Option ℤ}
    (hdefault : ¬[':', ':'] <:+: options.clientDefault.toList)
    (h : l.Reads options visitTime n
      (UrlFactory.getUrlFrom validUri options visitTime (UrlFactory.splitTokenizedUrl l.text) id)) :
    ∀ c ∈ l.client, ¬[':', ':'] <:+: c.text.toList := by
  intro c hc
  obtain ⟨_, -, hok⟩ := h
  have hclient := (UrlFactory.getUrlFrom_eq_ok hok).2
  simp only [Option.mem_def.1 hc, Option.map_some, Option.getD_some] at hclient
  rcases hclient with hsame | htoken
  · rwa [hsame]
  · exact UrlFactory.not_infix_of_mem_splitTokenizedUrl htoken

/-- A field behind a colon has no separator, or one that begins with its colon. -/
theorem not_infix_colon_cons {field : List Char} (hcolon : ':' ∉ field) (hne : field ≠ []) :
    ¬[':', ':'] <:+: ':' :: field ++ [':'] := by
  obtain ⟨c, cs, rfl⟩ := List.exists_cons_of_ne_nil hne
  rw [List.cons_append, List.infix_cons_iff, not_or]
  refine ⟨?_, not_infix_of_notMem hcolon⟩
  rw [List.cons_append, List.cons_prefix_cons, List.cons_prefix_cons]
  rintro ⟨-, rfl, -⟩
  exact hcolon List.mem_cons_self

/-- Behind a client that ends with a colon, the next field begins with it. -/
theorem splitTokenizedUrl_client_end {before field : List Char} {rest : List (List Char)} (hurl : ¬[':'] <:+ l.url.toList)
    (hbefore : ¬[':', ':'] <:+: before ++ [':']) (hfield : ':' ∉ field ∧ field ≠ [])
    (hrest : ∀ f ∈ rest, ':' ∉ f ∧ f ≠ []) (hfields : l.fields = (before ++ [':']) :: field :: rest) :
    UrlFactory.splitTokenizedUrl l.text = (l.url.toList :: before :: (':' :: field) :: rest).map String.ofList := by
  have htext : l.text = String.ofList ([':', ':'].intercalate (l.url.toList :: before :: (':' :: field) :: rest)) := by
    rw [text, hfields]
    simp [List.intercalate_cons_cons_left]
  have hgood : ∀ part ∈ l.url.toList :: before :: (':' :: field) :: rest, ¬[':', ':'] <:+: part ++ [':'] := by
    simp only [List.forall_mem_cons]
    exact ⟨not_infix_append_colon.2 ⟨l.plain, hurl⟩, hbefore, not_infix_colon_cons hfield.1 hfield.2,
      fun f hf => not_infix_of_notMem (hrest f hf).1⟩
  have hlast : (before :: (':' :: field) :: rest).getLast? ≠ some [] := by
    intro hnil
    rw [List.getLast?_cons_cons] at hnil
    rcases List.mem_cons.1 (List.mem_of_getLast? hnil) with h | h
    · cases h
    · exact (hrest _ h).2 rfl
  rw [htext]
  exact UrlFactory.splitTokenizedUrl_intercalate (fun part hpart => hgood part (List.mem_of_mem_dropLast hpart))
    (fun part hpart => (not_infix_append_colon.1 (hgood part hpart)).1) hlast

/-- **So that field is no number.** -/
theorem client_end_of_reads {visitTime : Int32} {n : ℤ} {id : Option ℤ} (hurl : ¬[':'] <:+ l.url.toList)
    (hplain : ∀ c ∈ l.client, ¬[':', ':'] <:+: c.text.toList)
    (h : l.Reads options visitTime n
      (UrlFactory.getUrlFrom validUri options visitTime (UrlFactory.splitTokenizedUrl l.text) id)) :
    ∀ c ∈ l.client, l.visitTime.isSome ∨ l.score.isSome → ¬[':'] <:+ c.text.toList := by
  rintro c hc hsome ⟨before, hbefore⟩
  obtain ⟨field, rest, hnumbers⟩ := List.exists_cons_of_ne_nil (numbers_ne_nil.2 hsome)
  have hplainNumber : ∀ f ∈ field :: rest, ':' ∉ f ∧ f ≠ [] := fun f hf => number_plain (by rwa [hnumbers])
  obtain ⟨hfield, hrest⟩ := List.forall_mem_cons.1 hplainNumber
  have hfields : l.fields = (before ++ [':']) :: field :: rest := by
    rw [fields, hnumbers, Option.mem_def.1 hc, hbefore]
    rfl
  have hshort : rest.length ≤ 1 := by
    have hlen := congrArg List.length hnumbers
    have htime : l.visitTime.toList.length ≤ 1 := by cases l.visitTime <;> simp
    have hscore : l.score.toList.length ≤ 1 := by cases l.score <;> simp
    rw [numbers, List.length_append, List.length_map, List.length_map, List.length_cons] at hlen
    omega
  rw [splitTokenizedUrl_client_end hurl (by rw [hbefore]; exact hplain c hc) hfield hrest hfields] at h
  obtain ⟨_, -, hok⟩ := h
  match rest, hshort with
  | [], _ =>
    simp only [List.map_cons, List.map_nil, UrlFactory.getUrlFrom, parseInt_colon, parseDouble_colon,
      UrlFactory.parseUrl_none_time, UrlFactory.parseUrl_none_score, UrlFactory.catchNumberFormat_error] at hok
    cases hok
  | [_], _ =>
    simp only [List.map_cons, List.map_nil, UrlFactory.getUrlFrom, parseInt_colon, UrlFactory.parseUrl_none_time] at hok
    cases hok

/-- **A line is read as it is meant if and only if no field is mistaken for another.** -/
theorem getUrl_reads (l : Line) {id : Option String} {visitTime : Int32} {n : ℤ}
    (htime : parseInt options.clientDefaultVisitTime = some visitTime) (hid : parseLong id = some n)
    (hdefault : ¬[':', ':'] <:+: options.clientDefault.toList) :
    l.Reads options visitTime n (UrlFactory.getUrl validUri options l.text id) ↔ l.Clear validUri options visitTime := by
  have hfrom : UrlFactory.getUrl validUri options l.text id =
      UrlFactory.getUrlFrom validUri options visitTime (UrlFactory.splitTokenizedUrl l.text) (some n) := by
    rw [UrlFactory.getUrl, htime, hid]
  rw [hfrom]
  constructor
  · intro h
    have hurl : l.fields ≠ [] → ¬[':'] <:+ l.url.toList := fun hfields => url_end_of_reads hfields h
    have hplain := client_plain_of_reads hdefault h
    have hclient : ∀ c ∈ l.client, l.visitTime.isSome ∨ l.score.isSome → ¬[':'] <:+ c.text.toList := by
      intro c hc
      refine client_end_of_reads (hurl ?_) hplain h c hc
      rw [fields, Option.mem_def.1 hc]
      exact List.cons_ne_nil _ _
    rw [splitTokenizedUrl_text hurl hplain hclient, getUrlFrom_reads] at h
    exact ⟨h.1, hurl, hplain, hclient, h.2.1, h.2.2⟩
  · intro h
    rw [splitTokenizedUrl_text h.url_end h.client_plain h.client_end, getUrlFrom_reads]
    exact ⟨h.valid, h.time, h.client_given⟩

/-- `http://a.pl::firefox::20::0.5`. -/
def full : Line where
  url := "http://a.pl"
  plain := by decide
  client := some ⟨"firefox", by decide, by decide, by decide⟩
  visitTime := some 20
  score := some ⟨false, ['0'], ['5'], by simp, by simp, by simp, by simp⟩

theorem full_reads : full.Reads ⟨"iexplore", some "30"⟩ 30 7
    (UrlFactory.getUrl (fun _ => true) ⟨"iexplore", some "30"⟩ full.text (some "7")) := by
  have htime : parseInt (some "30") = some 30 := by decide
  have hid : parseLong (some "7") = some 7 := by decide
  refine (@getUrl_reads _ ⟨"iexplore", some "30"⟩ full _ _ _ htime hid (by decide)).2 ?_
  refine ⟨rfl, fun _ => by decide, ?_, ?_, ?_, nofun⟩
  · rintro c ⟨⟩
    decide
  · rintro c ⟨⟩ -
    decide
  · rintro t ⟨⟩
    decide

/-- `http://a.pl::20::0.5`. -/
def withoutClient : Line := { full with client := none }

/-- The visit time is taken for a client. -/
theorem withoutClient_not_reads : ¬withoutClient.Reads ⟨"iexplore", some "30"⟩ 30 7
    (UrlFactory.getUrl (fun _ => true) ⟨"iexplore", some "30"⟩ withoutClient.text (some "7")) := by
  intro h
  have htime : parseInt (some "30") = some 30 := by decide
  have hid : parseLong (some "7") = some 7 := by decide
  have hclient : withoutClient.client = none := rfl
  rw [UrlFactory.getUrl, htime, hid, splitTokenizedUrl_text (fun _ => by decide) (by simp [hclient])
    (by simp [hclient]), getUrlFrom_reads] at h
  exact absurd (h.2.2 rfl rfl 20 rfl).1 (by decide)

end Line

end CaptureHPC
