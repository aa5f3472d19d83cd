import Mathlib

/-!
# XML documents that are one element

A parser for XML 1.0 with namespaces, for documents without prolog: elements, attributes,
references, comments, processing instructions and CDATA sections. It gives the tree of the
elements (`Tree`), without character data.

The results are about texts made of pieces.

* `attribute_iff`: when a quoted text is read as a given value.
* `attributes_iff`, `startTag_iff`: the same for a start tag.
* `content_text`, `text_of_content`: text adds no children, and data without tags that is read is text.
* `content_count`: without declarations each `<` that is read is one of the two tags of an element.
-/

namespace Lib.Xml

/-! ## Characters and names -/

/-- `Char` of XML 1.0. -/
def isChar (c : Char) : Bool :=
  let n := c.toNat
  n = 0x9 || n = 0xA || n = 0xD || (0x20 ≤ n && n ≤ 0xD7FF) || (0xE000 ≤ n && n ≤ 0xFFFD) || 0x10000 ≤ n

def isSpace (c : Char) : Bool := c = ' ' || c = '\t' || c = '\n' || c = '\r'

/-- `NameStartChar`, but no colon: a name is local. -/
def isNameStart (c : Char) : Bool :=
  let n := c.toNat
  c = '_' || (0x41 ≤ n && n ≤ 0x5A) || (0x61 ≤ n && n ≤ 0x7A) || (0xC0 ≤ n && n ≤ 0xD6) ||
    (0xD8 ≤ n && n ≤ 0xF6) || (0xF8 ≤ n && n ≤ 0x2FF) || (0x370 ≤ n && n ≤ 0x37D) ||
    (0x37F ≤ n && n ≤ 0x1FFF) || (0x200C ≤ n && n ≤ 0x200D) || (0x2070 ≤ n && n ≤ 0x218F) ||
    (0x2C00 ≤ n && n ≤ 0x2FEF) || (0x3001 ≤ n && n ≤ 0xD7FF) || (0xF900 ≤ n && n ≤ 0xFDCF) ||
    (0xFDF0 ≤ n && n ≤ 0xFFFD) || (0x10000 ≤ n && n ≤ 0xEFFFF)

def isNameChar (c : Char) : Bool :=
  let n := c.toNat
  isNameStart c || c = '-' || c = '.' || (0x30 ≤ n && n ≤ 0x39) || n = 0xB7 || (0x300 ≤ n && n ≤ 0x36F) ||
    (0x203F ≤ n && n ≤ 0x2040)

def isName (s : List Char) : Bool := s.head?.any isNameStart && s.all isNameChar

/-- A name at the front. -/
def parseName (cs : List Char) : Option (List Char × List Char) :=
  if isName (cs.takeWhile isNameChar) then some (cs.takeWhile isNameChar, cs.dropWhile isNameChar) else none

/-! ## References and attribute values -/

/-- The value of a digit. -/
def digit (base : ℕ) (c : Char) : Option ℕ :=
  let n := c.toNat
  let value :=
    if 0x30 ≤ n ∧ n ≤ 0x39 then n - 0x30
    else if 0x41 ≤ n ∧ n ≤ 0x46 then n - 0x37
    else if 0x61 ≤ n ∧ n ≤ 0x66 then n - 0x57
    else base
  if value < base then some value else none

/-- The character of a numeric reference. -/
def charRef (base : ℕ) (ds : List Char) : Option Char :=
  if ds = [] then none
  else (ds.foldlM (fun n d => (digit base d).map (base * n + ·)) 0).bind fun n =>
    if n.isValidChar ∧ isChar (Char.ofNat n) then some (Char.ofNat n) else none

/-- What a reference stands for. -/
def entity : List Char → Option Char
  | ['a', 'm', 'p'] => some '&'
  | ['l', 't'] => some '<'
  | ['g', 't'] => some '>'
  | ['q', 'u', 'o', 't'] => some '"'
  | ['a', 'p', 'o', 's'] => some '\''
  | '#' :: 'x' :: ds => charRef 16 ds
  | '#' :: ds => charRef 10 ds
  | _ => none

/-- The value that a quoted text stands for. `ref` is the name of a reference as far as it is
read. White space that is no reference becomes a blank. -/
def expandFrom : Option (List Char) → List Char → Option (List Char)
  | none, [] => some []
  | some _, [] => none
  | some ref, c :: cs =>
    if c = ';' then (entity ref).bind fun x => (expandFrom none cs).map (x :: ·) else expandFrom (some (ref ++ [c])) cs
  | none, c :: cs =>
    if c = '&' then expandFrom (some []) cs
    else if c = '<' || !isChar c then none
    else (expandFrom none cs).map ((if isSpace c then ' ' else c) :: ·)

def expand (cs : List Char) : Option (List Char) := expandFrom none cs

/-- A quoted value, after the opening quote. -/
def parseValue (quote : Char) (cs : List Char) : Option (List Char × List Char) :=
  match cs.dropWhile (· ≠ quote) with
  | [] => none
  | _ :: rest => (expand (cs.takeWhile (· ≠ quote))).map fun value => (value, rest)

def skipSpace (cs : List Char) : List Char := cs.dropWhile isSpace

/-- A value in quotes of either kind. -/
def parseQuoted : List Char → Option (List Char × List Char)
  | '"' :: cs => parseValue '"' cs
  | '\'' :: cs => parseValue '\'' cs
  | _ => none

/-- The equals sign and the value of an attribute. -/
def parseEqValue (cs : List Char) : Option (List Char × List Char) :=
  match skipSpace cs with
  | '=' :: r => parseQuoted (skipSpace r)
  | _ => none

/-- The attributes up to the end of a start tag; there is white space before each. -/
def parseAttributes : ℕ → List Char → Option (List (List Char × List Char) × List Char)
  | 0, _ => none
  | fuel + 1, cs =>
    let r := skipSpace cs
    if r.head? = some '>' ∨ r.head? = some '/' then some ([], r)
    else if r.length = cs.length then none
    else do
      let (name, r) ← parseName r
      let (value, r) ← parseEqValue r
      let (attributes, r) ← parseAttributes fuel r
      pure ((name, value) :: attributes, r)

/-! ## Elements -/

/-- The tree of the elements, with strings of any kind. -/
inductive Tree (σ : Type)
  | mk (name : σ) (attributes : List (σ × σ)) (children : List (Tree σ))

/-- The attributes of a start tag that are reported: `xmlns` declares a namespace. -/
def reported (ps : List (List Char × List Char)) : List (List Char × List Char) :=
  ps.filter fun p => p.1 ≠ "xmlns".toList

/-- A start tag, after its `<`. The flag says whether the element is empty. -/
def startTag (cs : List Char) : Option (List Char × List (List Char × List Char) × Bool × List Char) := do
  let (name, r) ← parseName cs
  let (attributes, r) ← parseAttributes (r.length + 1) r
  if (attributes.map Prod.fst).Nodup then
    match r with
    | '>' :: r => some (name, reported attributes, false, r)
    | '/' :: '>' :: r => some (name, reported attributes, true, r)
    | _ => none
  else none

/-- The end tag of an element. -/
def endTag (name : List Char) (cs : List Char) : Option (List Char) :=
  if ('<' :: '/' :: name).isPrefixOf cs then
    match skipSpace (cs.drop (name.length + 2)) with
    | '>' :: r => some r
    | _ => none
  else none

/-- What follows the first `stop`. -/
def skipPast (stop : List Char) : List Char → Option (List Char)
  | [] => none
  | c :: cs =>
    if stop.isPrefixOf (c :: cs) then some ((c :: cs).drop stop.length)
    else if isChar c then skipPast stop cs
    else none

/-- A comment, a CDATA section or a processing instruction. -/
def skipMarkup (cs : List Char) : Option (List Char) :=
  if "<!--".toList.isPrefixOf cs then
    match skipPast "--".toList (cs.drop 4) with
    | some ('>' :: r) => some r
    | _ => none
  else if "<![CDATA[".toList.isPrefixOf cs then skipPast "]]>".toList (cs.drop 9)
  else if "<?".toList.isPrefixOf cs then do
    let (target, r) ← parseName (cs.drop 2)
    if target.map Char.toLower = "xml".toList then none
    else if "?>".toList.isPrefixOf r || r.head?.any isSpace then skipPast "?>".toList r
    else none
  else none

/-- A reference in content, after its `&`. -/
def skipReference (cs : List Char) : Option (List Char) :=
  match cs.dropWhile (· ≠ ';') with
  | [] => none
  | _ :: r => (entity (cs.takeWhile (· ≠ ';'))).map fun _ => r

/-- An element, after its `<`, with a parser for its content. -/
def element (content : List Char → Option (List (Tree (List Char)) × List Char)) (cs : List Char) :
    Option (Tree (List Char) × List Char) := do
  let (name, attributes, empty, r) ← startTag cs
  if empty then some (.mk name attributes [], r)
  else do
    let (children, r) ← content r
    let r ← endTag name r
    some (.mk name attributes children, r)

/-- The elements of a content, up to an end tag. -/
def content : ℕ → List Char → Option (List (Tree (List Char)) × List Char)
  | 0, _ => none
  | _ + 1, [] => none
  | fuel + 1, c :: cs =>
    if c = '<' then
      match cs.head? with
      | some '/' => some ([], c :: cs)
      | some '!' => (skipMarkup (c :: cs)).bind (content fuel)
      | some '?' => (skipMarkup (c :: cs)).bind (content fuel)
      | _ => do
        let (t, r) ← element (content fuel) cs
        let (ts, r) ← content fuel r
        some (t :: ts, r)
    else if c = '&' then (skipReference cs).bind (content fuel)
    else if "]]>".toList.isPrefixOf (c :: cs) || !isChar c then none
    else content fuel cs

/-- The root element at the front. -/
def parse : List Char → Option (Tree (List Char) × List Char)
  | '<' :: cs => element (content (cs.length + 1)) cs
  | _ => none

/-- White space, comments and processing instructions up to the end. -/
def isMisc : ℕ → List Char → Bool
  | _, [] => true
  | 0, _ :: _ => false
  | fuel + 1, c :: cs =>
    if isSpace c then isMisc fuel cs
    else if "<![CDATA[".toList.isPrefixOf (c :: cs) then false
    else (skipMarkup (c :: cs)).any (isMisc fuel)

/-- Character data, references, comments, CDATA sections and processing instructions, up to the end. -/
def isText : ℕ → List Char → Bool
  | _, [] => true
  | 0, _ :: _ => false
  | fuel + 1, c :: cs =>
    if c = '<' then (skipMarkup (c :: cs)).any (isText fuel)
    else if c = '&' then (skipReference cs).any (isText fuel)
    else if "]]>".toList.isPrefixOf (c :: cs) || !isChar c then false
    else isText fuel cs

def IsText (d : List Char) : Prop := isText d.length d = true

instance : DecidablePred IsText := fun d => inferInstanceAs (Decidable (isText d.length d = true))

/-- Nothing in the text starts a comment, a CDATA section or a processing instruction. -/
def noDeclaration : List Char → Bool
  | [] => true
  | c :: cs => !(c = '<' && (cs.head? = some '!' || cs.head? = some '?')) && noDeclaration cs

/-- A whole document. -/
def document (cs : List Char) : Option (Tree (List Char)) := do
  let (t, r) ← parse cs
  if isMisc r.length r then some t else none


/-! ## Trees -/

namespace Tree

variable {σ τ : Type}

mutual

/-- The tree with other strings. -/
def map (f : σ → τ) : Tree σ → Tree τ
  | .mk n attributes children => .mk (f n) (attributes.map (Prod.map f f)) (mapList f children)

def mapList (f : σ → τ) : List (Tree σ) → List (Tree τ)
  | [] => []
  | t :: ts => map f t :: mapList f ts

end

mutual

/-- How many elements there are. -/
def size : Tree σ → ℕ
  | .mk _ _ children => sizeList children + 1

def sizeList : List (Tree σ) → ℕ
  | [] => 0
  | t :: ts => size t + sizeList ts

end

mutual

theorem size_map (f : σ → τ) (t : Tree σ) : (t.map f).size = t.size := by
  match t with
  | .mk n as children => rw [map, size, size, sizeList_map f children]

theorem sizeList_map (f : σ → τ) (ts : List (Tree σ)) : sizeList (mapList f ts) = sizeList ts := by
  match ts with
  | [] => rfl
  | t :: ts => rw [mapList, sizeList, sizeList, size_map f t, sizeList_map f ts]

end

end Tree

/-! ## Names -/

theorem takeWhile_append {p : Char → Bool} (as bs : List Char) (has : ∀ c ∈ as, p c = true)
    (hbs : ∀ c ∈ bs.head?, p c = false) :
    (as ++ bs).takeWhile p = as ∧ (as ++ bs).dropWhile p = bs := by
  rw [List.takeWhile_append_of_pos has, List.dropWhile_append_of_pos has]
  cases bs with
  | nil => exact ⟨List.append_nil _, rfl⟩
  | cons b bs =>
    have hb : ¬ p b = true := by rw [hbs b rfl]; decide
    rw [List.takeWhile_cons_of_neg hb, List.dropWhile_cons_of_neg hb]
    exact ⟨List.append_nil _, rfl⟩

theorem isName_all {s : List Char} (h : isName s = true) : ∀ c ∈ s, isNameChar c = true := by
  unfold isName at h
  rw [Bool.and_eq_true] at h
  exact List.all_eq_true.1 h.2

theorem isName_head {s : List Char} (h : isName s = true) : ∃ c cs, s = c :: cs ∧ isNameStart c = true := by
  unfold isName at h
  rw [Bool.and_eq_true] at h
  cases s with
  | nil => exact absurd h.1 (by decide)
  | cons c cs => exact ⟨c, cs, rfl, h.1⟩

theorem parseName_append {name rest : List Char} (hname : isName name = true)
    (hrest : ∀ c ∈ rest.head?, isNameChar c = false) : parseName (name ++ rest) = some (name, rest) := by
  obtain ⟨htake, hdrop⟩ := takeWhile_append _ _ (isName_all hname) hrest
  unfold parseName
  rw [htake, hdrop, if_pos hname]

/-- A name starts with no mark and no white space. -/
theorem isNameStart_ne {c : Char} (h : isNameStart c = true) :
    isSpace c = false ∧ c ≠ '>' ∧ c ≠ '/' ∧ c ≠ '!' ∧ c ≠ '?' := by
  refine ⟨?_, ?_, ?_, ?_, ?_⟩
  · by_contra hs
    rw [Bool.not_eq_false] at hs
    unfold isSpace at hs
    simp only [Bool.or_eq_true, decide_eq_true_eq] at hs
    rcases hs with ((rfl | rfl) | rfl) | rfl <;> exact absurd h (by decide)
  all_goals rintro rfl; exact absurd h (by decide)

/-! ## Values -/

/-- A character that a value keeps. -/
def isKept (c : Char) : Bool := isChar c && !(c = '\t' || c = '\n' || c = '\r')

/-- A character that stands for itself between double quotes. -/
def isPlain (c : Char) : Bool := isKept c && !(c = '&' || c = '<' || c = '"')

theorem expandFrom_length {ref : Option (List Char)} {cs v : List Char} (h : expandFrom ref cs = some v) :
    v.length ≤ cs.length := by
  induction cs generalizing ref v with
  | nil =>
    cases ref with
    | none =>
      cases h
      exact Nat.le_refl _
    | some ref => cases h
  | cons c cs ih =>
    cases ref with
    | none =>
      rw [expandFrom] at h
      by_cases hc : c = '&'
      · rw [if_pos hc] at h
        exact (ih h).trans (Nat.le_succ _)
      · rw [if_neg hc] at h
        split at h
        · cases h
        · obtain ⟨w, hw, rfl⟩ := Option.map_eq_some_iff.1 h
          exact Nat.succ_le_succ (ih hw)
    | some ref =>
      rw [expandFrom] at h
      split_ifs at h
      · obtain ⟨x, -, hx⟩ := Option.bind_eq_some_iff.1 h
        obtain ⟨w, hw, rfl⟩ := Option.map_eq_some_iff.1 hx
        exact Nat.succ_le_succ (ih hw)
      · exact (ih h).trans (Nat.le_succ _)

/-- A character other than `&`. -/
theorem expand_cons {c : Char} (h : c ≠ '&') (cs : List Char) : expand (c :: cs) =
    if c = '<' || !isChar c then none else (expand cs).map ((if isSpace c then ' ' else c) :: ·) := by
  unfold expand
  rw [expandFrom, if_neg h]

/-- A kept character is read as itself; every other one is read as something else. -/
theorem expand_cons_iff {c : Char} (h : c ≠ '&') {cs v : List Char} :
    expand (c :: cs) = some (c :: v) ↔ (isKept c = true ∧ c ≠ '<') ∧ expand cs = some v := by
  have hspace : (if isSpace c = true then ' ' else c) = c ↔ ¬ (c = '\t' ∨ c = '\n' ∨ c = '\r') := by
    unfold isSpace
    by_cases h1 : c = ' ' <;> by_cases h2 : c = '\t' <;> by_cases h3 : c = '\n' <;> by_cases h4 : c = '\r' <;>
      simp_all
  rw [expand_cons h]
  by_cases hbad : (c = '<' || !isChar c) = true
  · rw [if_pos hbad]
    refine iff_of_false (by simp) ?_
    rintro ⟨⟨hk, hlt⟩, -⟩
    simp only [isKept, Bool.and_eq_true] at hk
    simp [hlt, hk.1] at hbad
  · rw [if_neg hbad]
    simp only [Bool.or_eq_true, decide_eq_true_eq, Bool.not_eq_true', not_or, Bool.not_eq_false] at hbad
    rw [Option.map_eq_some_iff]
    constructor
    · rintro ⟨w, hw, heq⟩
      obtain ⟨hc, rfl⟩ := List.cons.inj heq
      have := hspace.1 hc
      exact ⟨⟨by simp only [isKept, hbad.2]; simp only [not_or] at this; simp [this], hbad.1⟩, hw⟩
    · rintro ⟨⟨hk, -⟩, hv⟩
      refine ⟨v, hv, ?_⟩
      rw [hspace.2]
      simp only [isKept, Bool.and_eq_true, Bool.not_eq_true', Bool.or_eq_false_iff, decide_eq_false_iff_not] at hk
      tauto

/-- A text is read as itself exactly if it has only kept characters and no reference. -/
theorem expand_self_iff (cs : List Char) : expand cs = some cs ↔ ∀ c ∈ cs, isKept c = true ∧ c ≠ '<' ∧ c ≠ '&' := by
  induction cs with
  | nil => simp [expand, expandFrom]
  | cons c cs ih =>
    rw [List.forall_mem_cons]
    by_cases hc : c = '&'
    · subst hc
      refine iff_of_false (fun h => ?_) (by simp)
      have hlen := expandFrom_length (show expandFrom (some []) cs = some ('&' :: cs) from h)
      simp at hlen
    · rw [expand_cons_iff hc, ih]
      tauto

/-- The text between double quotes is read as the value. -/
def Reads (text value : List Char) : Prop := '"' ∉ text ∧ expand text = some value

theorem reads_self_iff (v : List Char) : Reads v v ↔ ∀ c ∈ v, isPlain c = true := by
  unfold Reads
  rw [expand_self_iff]
  have hplain : ∀ c : Char, isPlain c = true ↔ (isKept c = true ∧ c ≠ '<' ∧ c ≠ '&') ∧ c ≠ '"' := by
    intro c
    simp only [isPlain, Bool.and_eq_true, Bool.not_eq_true', Bool.or_eq_false_iff, decide_eq_false_iff_not]
    tauto
  constructor
  · rintro ⟨hq, h⟩ c hc
    exact (hplain c).2 ⟨h c hc, fun heq => hq (heq ▸ hc)⟩
  · intro h
    exact ⟨fun hq => ((hplain _).1 (h _ hq)).2 rfl, fun c hc => ((hplain c).1 (h c hc)).1⟩

theorem parseValue_of_notMem {text : List Char} (h : '"' ∉ text) (rest : List Char) :
    parseValue '"' (text ++ '"' :: rest) = (expand text).map fun value => (value, rest) := by
  obtain ⟨htake, hdrop⟩ := takeWhile_append (p := (· ≠ '"')) text ('"' :: rest)
    (fun c hc => by simpa using fun heq : c = '"' => h (heq ▸ hc)) (by simp)
  unfold parseValue
  rw [htake, hdrop]

/-- **When a quoted text is read as a value**, and only it. A quote inside would end the value
early, so it must not make up for that. -/
theorem attribute_iff {text value r : List Char} (rest : List Char) (h : '"' ∉ text ∨ text.length ≤ value.length) :
    parseEqValue ('=' :: '"' :: (text ++ '"' :: rest)) = some (value, r) ↔ Reads text value ∧ r = rest := by
  have hstep : parseEqValue ('=' :: '"' :: (text ++ '"' :: rest)) = parseValue '"' (text ++ '"' :: rest) := rfl
  rw [hstep]
  by_cases hq : '"' ∈ text
  · refine iff_of_false (fun hv => ?_) fun hr => hr.1.1 hq
    -- the value ends at the first quote, and is too short
    obtain ⟨pre, post, rfl, hpre⟩ := List.eq_append_cons_of_mem hq
    rw [List.append_assoc, List.cons_append, parseValue_of_notMem hpre] at hv
    obtain ⟨w, hw, heq⟩ := Option.map_eq_some_iff.1 hv
    obtain rfl := congrArg Prod.fst heq
    have hlen := expandFrom_length hw
    have hle := h.resolve_left (not_not.2 hq)
    rw [List.length_append, List.length_cons] at hle
    dsimp only at hle
    omega
  · rw [parseValue_of_notMem hq, Option.map_eq_some_iff, Reads]
    constructor
    · rintro ⟨w, hw, heq⟩
      cases heq
      exact ⟨⟨hq, hw⟩, rfl⟩
    · rintro ⟨⟨-, hw⟩, rfl⟩
      exact ⟨value, hw, rfl⟩

/-! ## Start tags -/

/-- An attribute as it is written. -/
structure Written where
  name : List Char
  text : List Char

/-- The text of the attributes. -/
def attributesText (as : List Written) : List Char :=
  as.flatMap fun a => ' ' :: (a.name ++ '=' :: '"' :: (a.text ++ ['"']))

/-- The end of a start tag. -/
def closing (empty : Bool) : List Char := if empty then ['/', '>'] else ['>']

/-- A text that does not go on with a name or white space. -/
def Stops (rest : List Char) : Prop := rest.head? = some '>' ∨ rest.head? = some '/'

theorem stops_closing (empty : Bool) (rest : List Char) : Stops (closing empty ++ rest) := by
  cases empty
  · exact .inl rfl
  · exact .inr rfl

theorem skipSpace_of_stops {rest : List Char} (h : Stops rest) : skipSpace rest = rest := by
  cases rest with
  | nil => rfl
  | cons c cs =>
    unfold Stops at h
    rw [List.head?_cons, Option.some.injEq, Option.some.injEq] at h
    rcases h with rfl | rfl <;> rfl

/-- What follows a name in a start tag is no part of it. -/
theorem name_ends (as : List Written) {rest : List Char} (h : Stops rest) :
    ∀ c ∈ (attributesText as ++ rest).head?, isNameChar c = false := by
  cases as with
  | nil =>
    intro c hc
    rw [attributesText, List.flatMap_nil, List.nil_append, Option.mem_def] at hc
    unfold Stops at h
    rw [hc, Option.some.injEq, Option.some.injEq] at h
    rcases h with rfl | rfl <;> decide
  | cons a as =>
    intro c hc
    cases hc
    decide

theorem attributesText_cons (a : Written) (as : List Written) (rest : List Char) :
    attributesText (a :: as) ++ rest =
      ' ' :: (a.name ++ ('=' :: '"' :: (a.text ++ '"' :: (attributesText as ++ rest)))) := by
  simp [attributesText]

theorem parseAttributes_stops {rest : List Char} (h : Stops rest) (fuel : ℕ) :
    parseAttributes (fuel + 1) rest = some ([], rest) := by
  unfold parseAttributes
  rw [skipSpace_of_stops h]
  exact if_pos h

/-- One attribute, and the rest of them. -/
theorem parseAttributes_cons {a : Written} (hname : isName a.name = true) (as : List Written) (rest : List Char)
    (fuel : ℕ) : parseAttributes (fuel + 1) (attributesText (a :: as) ++ rest) =
      (parseEqValue ('=' :: '"' :: (a.text ++ '"' :: (attributesText as ++ rest)))).bind fun vr =>
        (parseAttributes fuel vr.2).map fun ps => ((a.name, vr.1) :: ps.1, ps.2) := by
  obtain ⟨c, cs, hcs, hc⟩ := isName_head hname
  obtain ⟨hspace, hgt, hslash, -, -⟩ := isNameStart_ne hc
  have hskip : ∀ l, skipSpace (' ' :: (a.name ++ l)) = a.name ++ l := by
    intro l
    rw [hcs]
    unfold skipSpace
    rw [List.dropWhile_cons_of_pos (by decide), List.cons_append, List.dropWhile_cons_of_neg (by simp [hspace])]
  rw [attributesText_cons]
  generalize hl : '=' :: '"' :: (a.text ++ '"' :: (attributesText as ++ rest)) = l
  have hparse : parseName (a.name ++ l) = some (a.name, l) :=
    parseName_append hname (by rw [← hl]; intro c hc; cases hc; decide)
  rw [parseAttributes, hskip]
  dsimp only
  rw [if_neg, if_neg, hparse]
  · rw [Option.bind_eq_bind, Option.bind_some]
    cases hv : parseEqValue l with
    | none => rfl
    | some vr =>
      rw [Option.bind_eq_bind, Option.bind_some, Option.bind_some]
      cases parseAttributes fuel vr.2 with
      | none => rfl
      | some ps => rfl
  · rw [List.length_cons]
    omega
  · rw [hcs]
    rintro (h | h)
    · exact hgt (Option.some.inj h)
    · exact hslash (Option.some.inj h)

/-- What is written for an attribute and what is to be read: no quote ends it early. -/
def Fits (a : Written) (value : List Char) : Prop := '"' ∉ a.text ∨ a.text.length ≤ value.length

theorem reported_cons {name value : List Char} (h : name ≠ "xmlns".toList) (ps : List (List Char × List Char)) :
    reported ((name, value) :: ps) = (name, value) :: reported ps := by
  unfold reported
  rw [List.filter_cons_of_pos (by simpa using h)]

/-- Attributes with a name of their own, which is not `xmlns`. -/
def NamesOk (names : List (List Char)) : Prop :=
  names.Nodup ∧ ∀ n ∈ names, isName n = true ∧ n ≠ "xmlns".toList

/-- If the attributes are read as the values, then each text is read as its value. -/
theorem reads_of_parseAttributes {as : List Written} {values : List (List Char)} (hlen : as.length = values.length)
    (hnames : ∀ a ∈ as, isName a.name = true ∧ a.name ≠ "xmlns".toList)
    (hfits : ∀ p ∈ as.zip values, Fits p.1 p.2) {rest r : List Char} (hrest : Stops rest) {fuel : ℕ}
    {ps : List (List Char × List Char)} (h : parseAttributes fuel (attributesText as ++ rest) = some (ps, r))
    (hps : reported ps = (as.map Written.name).zip values) :
    (∀ p ∈ as.zip values, Reads p.1.text p.2) ∧ r = rest := by
  induction as generalizing values fuel ps with
  | nil =>
    cases fuel with
    | zero => cases h
    | succ fuel =>
      rw [attributesText, List.flatMap_nil, List.nil_append, parseAttributes_stops hrest] at h
      cases h
      exact ⟨by simp, rfl⟩
  | cons a as ih =>
    cases fuel with
    | zero => cases h
    | succ fuel =>
      cases values with
      | nil => cases hlen
      | cons v vs =>
        obtain ⟨hname, hxmlns⟩ := hnames a List.mem_cons_self
        rw [parseAttributes_cons hname] at h
        obtain ⟨⟨v', r'⟩, hv, hmap⟩ := Option.bind_eq_some_iff.1 h
        obtain ⟨⟨ps', r''⟩, hps', heq⟩ := Option.map_eq_some_iff.1 hmap
        cases heq
        rw [reported_cons hxmlns, List.map_cons, List.zip_cons_cons, List.cons.injEq, Prod.mk.injEq] at hps
        obtain ⟨⟨-, rfl⟩, hps⟩ := hps
        obtain ⟨hreads, rfl⟩ := (attribute_iff _ (hfits (a, v') List.mem_cons_self)).1 hv
        obtain ⟨hall, rfl⟩ := ih (Nat.succ.inj hlen) (fun b hb => hnames b (List.mem_cons_of_mem _ hb))
          (fun p hp => hfits p (List.mem_cons_of_mem _ hp)) hps' hps
        refine ⟨?_, rfl⟩
        rw [List.zip_cons_cons, List.forall_mem_cons]
        exact ⟨hreads, hall⟩

/-- If each text is read as its value, then so are the attributes. -/
theorem parseAttributes_of_reads {as : List Written} {values : List (List Char)} (hlen : as.length = values.length)
    (hnames : ∀ a ∈ as, isName a.name = true) (hreads : ∀ p ∈ as.zip values, Reads p.1.text p.2) {rest : List Char}
    (hrest : Stops rest) {fuel : ℕ} (hfuel : as.length < fuel) :
    parseAttributes fuel (attributesText as ++ rest) = some ((as.map Written.name).zip values, rest) := by
  induction as generalizing values fuel with
  | nil =>
    obtain ⟨fuel, rfl⟩ : ∃ f, fuel = f + 1 := ⟨fuel - 1, by omega⟩
    rw [attributesText, List.flatMap_nil, List.nil_append, parseAttributes_stops hrest]
    rfl
  | cons a as ih =>
    obtain ⟨fuel, rfl⟩ : ∃ f, fuel = f + 1 := ⟨fuel - 1, by omega⟩
    cases values with
    | nil => cases hlen
    | cons v vs =>
      rw [List.zip_cons_cons, List.forall_mem_cons] at hreads
      have hone := (attribute_iff (attributesText as ++ rest) (.inl hreads.1.1)).2 ⟨hreads.1, rfl⟩
      rw [parseAttributes_cons (hnames a List.mem_cons_self), hone, Option.bind_some,
        ih (Nat.succ.inj hlen) (fun b hb => hnames b (List.mem_cons_of_mem _ hb)) hreads.2
          (by rw [List.length_cons] at hfuel; omega)]
      rfl

theorem reported_zip {names values : List (List Char)} (h : ∀ n ∈ names, n ≠ "xmlns".toList) :
    reported (names.zip values) = names.zip values := by
  unfold reported
  rw [List.filter_eq_self]
  intro p hp
  simpa using h p.1 (List.of_mem_zip hp).1

theorem length_attributesText (as : List Written) : as.length ≤ (attributesText as).length := by
  induction as with
  | nil => exact Nat.le_refl _
  | cons a as ih =>
    have := congrArg List.length (attributesText_cons a as [])
    simp only [List.append_nil, List.length_cons, List.length_append] at this ⊢
    omega

/-- A start tag that is read. -/
theorem startTag_of_reads {name : List Char} {as : List Written} {values : List (List Char)} (hname : isName name = true)
    (hlen : as.length = values.length) (hnames : NamesOk (as.map Written.name))
    (hreads : ∀ p ∈ as.zip values, Reads p.1.text p.2) (empty : Bool) (rest : List Char) :
    startTag (name ++ (attributesText as ++ (closing empty ++ rest))) =
      some (name, (as.map Written.name).zip values, empty, rest) := by
  have hstop := stops_closing empty rest
  have hok : ∀ a ∈ as, isName a.name = true := fun a ha => (hnames.2 _ (List.mem_map_of_mem ha)).1
  have hfst : ((as.map Written.name).zip values).map Prod.fst = as.map Written.name :=
    List.map_fst_zip (by rw [List.length_map, hlen])
  have hle := length_attributesText as
  unfold startTag
  rw [parseName_append hname (name_ends as hstop), Option.bind_eq_bind, Option.bind_some]
  dsimp only
  rw [parseAttributes_of_reads hlen hok hreads hstop (by rw [List.length_append]; omega), Option.bind_eq_bind,
    Option.bind_some]
  dsimp only
  rw [hfst, if_pos hnames.1, reported_zip fun n hn => (hnames.2 n hn).2]
  cases empty <;> rfl

/-- A start tag that is read as the values. -/
theorem reads_of_startTag {name n : List Char} {as : List Written} {values : List (List Char)} (hname : isName name = true)
    (hlen : as.length = values.length) (hnames : NamesOk (as.map Written.name))
    (hfits : ∀ p ∈ as.zip values, Fits p.1 p.2) {empty b : Bool} {rest r : List Char}
    (h : startTag (name ++ (attributesText as ++ (closing empty ++ rest))) =
      some (n, (as.map Written.name).zip values, b, r)) :
    (∀ p ∈ as.zip values, Reads p.1.text p.2) ∧ n = name ∧ b = empty ∧ r = rest := by
  have hstop := stops_closing empty rest
  have hok : ∀ a ∈ as, isName a.name = true ∧ a.name ≠ "xmlns".toList := fun a ha =>
    hnames.2 _ (List.mem_map_of_mem ha)
  unfold startTag at h
  rw [parseName_append hname (name_ends as hstop), Option.bind_eq_bind, Option.bind_some] at h
  dsimp only at h
  obtain ⟨⟨ps, r'⟩, hps, hrest⟩ := Option.bind_eq_some_iff.1 h
  dsimp only at hrest
  split_ifs at hrest
  have hread : reported ps = (as.map Written.name).zip values →
      (∀ p ∈ as.zip values, Reads p.1.text p.2) ∧ r' = closing empty ++ rest :=
    reads_of_parseAttributes hlen hok hfits hstop hps
  split at hrest
  · simp only [Option.some.injEq, Prod.mk.injEq] at hrest
    obtain ⟨rfl, hrep, rfl, rfl⟩ := hrest
    obtain ⟨hall, heq⟩ := hread hrep
    cases empty <;> cases heq
    exact ⟨hall, rfl, rfl, rfl⟩
  · simp only [Option.some.injEq, Prod.mk.injEq] at hrest
    obtain ⟨rfl, hrep, rfl, rfl⟩ := hrest
    obtain ⟨hall, heq⟩ := hread hrep
    cases empty <;> cases heq
    exact ⟨hall, rfl, rfl, rfl⟩
  · cases hrest

/-! ## Content -/

theorem endTag_name {name : List Char} (rest : List Char) :
    endTag name ('<' :: '/' :: (name ++ '>' :: rest)) = some rest := by
  have hp : ('<' :: '/' :: name).isPrefixOf ('<' :: '/' :: (name ++ '>' :: rest)) = true := by
    rw [List.isPrefixOf_iff_prefix]
    exact ⟨'>' :: rest, by simp⟩
  have hd : ('<' :: '/' :: (name ++ '>' :: rest)).drop (name.length + 2) = '>' :: rest := by
    show (name ++ '>' :: rest).drop name.length = _
    rw [List.drop_left]
  unfold endTag
  rw [if_pos hp, hd]
  rfl

theorem content_end (fuel : ℕ) (rest : List Char) :
    content (fuel + 1) ('<' :: '/' :: rest) = some ([], '<' :: '/' :: rest) := rfl

/-- Content that starts with an element. -/
theorem content_element {name : List Char} (hname : isName name = true) (fuel : ℕ) (l : List Char) :
    content (fuel + 1) ('<' :: (name ++ l)) =
      (element (content fuel) (name ++ l)).bind fun tr =>
        (content fuel tr.2).map fun tsr => (tr.1 :: tsr.1, tsr.2) := by
  obtain ⟨c, cs, rfl, hc⟩ := isName_head hname
  obtain ⟨-, -, hslash, hbang, hquestion⟩ := isNameStart_ne hc
  rw [content, if_pos rfl, List.cons_append, List.head?_cons]
  have hmatch : ∀ {α : Type} (x y z w : α), (match some c with
      | some '/' => x
      | some '!' => y
      | some '?' => z
      | _ => w) = w := by
    intro α x y z w
    split
    · exact absurd (Option.some.inj ‹_›) hslash
    · exact absurd (Option.some.inj ‹_›) hbang
    · exact absurd (Option.some.inj ‹_›) hquestion
    · rfl
  rw [hmatch]
  cases element (content fuel) (c :: (cs ++ l)) with
  | none => rfl
  | some tr =>
    obtain ⟨t, r⟩ := tr
    rw [Option.bind_eq_bind, Option.bind_some, Option.bind_some]
    dsimp only
    cases content fuel r with
    | none => rfl
    | some tsr => rfl

/-! ## Text -/

theorem isPrefixOf_append_of_le {s cs : List Char} (h : s.length ≤ cs.length) (rest : List Char) :
    s.isPrefixOf (cs ++ rest) = s.isPrefixOf cs := by
  rw [Bool.eq_iff_iff, List.isPrefixOf_iff_prefix, List.isPrefixOf_iff_prefix]
  exact ⟨fun hp => List.prefix_of_prefix_length_le hp (List.prefix_append cs rest) h,
    fun hp => hp.trans (List.prefix_append cs rest)⟩

theorem skipPast_append {stop cs r : List Char} (h : skipPast stop cs = some r) (rest : List Char) :
    stop.length ≤ cs.length ∧ skipPast stop (cs ++ rest) = some (r ++ rest) := by
  induction cs with
  | nil => exact nomatch h
  | cons c cs ih =>
    rw [skipPast] at h
    by_cases hstop : stop.isPrefixOf (c :: cs) = true
    · rw [if_pos hstop] at h
      obtain rfl := Option.some.inj h
      have hlen := (List.isPrefixOf_iff_prefix.1 hstop).length_le
      refine ⟨hlen, ?_⟩
      rw [List.cons_append, skipPast, ← List.cons_append, isPrefixOf_append_of_le hlen, if_pos hstop,
        List.drop_append_of_le_length hlen]
    · rw [if_neg hstop] at h
      split_ifs at h with hchar
      obtain ⟨hle, hrest⟩ := ih h
      have hlen : stop.length ≤ (c :: cs).length := hle.trans (Nat.le_succ _)
      refine ⟨hlen, ?_⟩
      rw [List.cons_append, skipPast, ← List.cons_append, isPrefixOf_append_of_le hlen, if_neg hstop, if_pos hchar, hrest]

theorem takeWhile_append_of_drop {p : Char → Bool} {cs r : List Char} {c : Char} (h : cs.dropWhile p = c :: r)
    (rest : List Char) :
    (cs ++ rest).takeWhile p = cs.takeWhile p ∧ (cs ++ rest).dropWhile p = c :: (r ++ rest) := by
  have hsplit : cs = cs.takeWhile p ++ c :: r := by rw [← h, List.takeWhile_append_dropWhile]
  have hall : ∀ x ∈ cs.takeWhile p, p x = true := fun x hx => List.mem_takeWhile_imp hx
  have hc : p c = false := by
    have := List.head?_dropWhile_not p cs
    rw [h] at this
    simpa using this
  have hboth := takeWhile_append (cs.takeWhile p) (c :: (r ++ rest)) hall (by simpa using hc)
  have hcs : cs ++ rest = cs.takeWhile p ++ c :: (r ++ rest) := by
    conv_lhs => rw [hsplit]
    rw [List.append_assoc, List.cons_append]
  rw [← hcs] at hboth
  exact hboth

theorem skipReference_append {cs r : List Char} (h : skipReference cs = some r) (rest : List Char) :
    skipReference (cs ++ rest) = some (r ++ rest) := by
  unfold skipReference at h ⊢
  cases hd : cs.dropWhile (· ≠ ';') with
  | nil =>
    rw [hd] at h
    exact nomatch h
  | cons c t =>
    rw [hd] at h
    obtain ⟨x, hx, rfl⟩ := Option.map_eq_some_iff.1 h
    obtain ⟨htake, hdrop⟩ := takeWhile_append_of_drop hd rest
    rw [hdrop, htake]
    simp only [hx, Option.map_some]

theorem parseName_append_of_rest {cs name r : List Char} {c : Char} (h : parseName cs = some (name, c :: r))
    (rest : List Char) : parseName (cs ++ rest) = some (name, c :: (r ++ rest)) := by
  unfold parseName at h ⊢
  split_ifs at h with hname
  rw [Option.some.injEq, Prod.mk.injEq] at h
  obtain ⟨htake, hdrop⟩ := takeWhile_append_of_drop h.2 rest
  rw [htake, hdrop, if_pos hname, h.1]

theorem skipMarkup_instruction (t : List Char) : skipMarkup ('<' :: '?' :: t) =
    (parseName t).bind fun tr => if tr.1.map Char.toLower = "xml".toList then none
      else if "?>".toList.isPrefixOf tr.2 || tr.2.head?.any isSpace then skipPast "?>".toList tr.2 else none := rfl

theorem skipMarkup_append {cs r : List Char} (h : skipMarkup cs = some r) (rest : List Char) :
    skipMarkup (cs ++ rest) = some (r ++ rest) := by
  have hcases := h
  unfold skipMarkup at hcases
  split_ifs at hcases with hcomment hcdata hpi
  · obtain ⟨t, rfl⟩ := List.isPrefixOf_iff_prefix.1 hcomment
    have h : (match skipPast "--".toList t with
      | some ('>' :: r) => some r
      | _ => none) = some r := h
    show (match skipPast "--".toList (t ++ rest) with
      | some ('>' :: r) => some r
      | _ => none) = some (r ++ rest)
    split at h
    · rename_i r' hpast
      obtain rfl := Option.some.inj h
      rw [(skipPast_append hpast rest).2]
      rfl
    · exact nomatch h
  · obtain ⟨t, rfl⟩ := List.isPrefixOf_iff_prefix.1 hcdata
    exact (skipPast_append (show skipPast "]]>".toList t = some r from h) rest).2
  · obtain ⟨t, rfl⟩ := List.isPrefixOf_iff_prefix.1 hpi
    have h := (skipMarkup_instruction t).symm.trans h
    obtain ⟨⟨target, r'⟩, hname, h⟩ := Option.bind_eq_some_iff.1 h
    dsimp only at h
    split_ifs at h with hxml hstop
    have hpast := skipPast_append h rest
    cases r' with
    | nil => exact nomatch h
    | cons c r' =>
      have hstop' : ("?>".toList.isPrefixOf (c :: r' ++ rest) || (c :: r' ++ rest).head?.any isSpace) = true := by
        rw [isPrefixOf_append_of_le hpast.1]
        exact hstop
      refine (skipMarkup_instruction (t ++ rest)).trans ?_
      rw [parseName_append_of_rest hname, Option.bind_some]
      dsimp only
      rw [if_neg hxml, ← List.cons_append, if_pos hstop']
      exact hpast.2

theorem skipMarkup_head {c : Char} {cs r : List Char} (h : skipMarkup (c :: cs) = some r) :
    c = '<' ∧ (cs.head? = some '!' ∨ cs.head? = some '?') := by
  unfold skipMarkup at h
  split_ifs at h with hcomment hcdata hpi
  · obtain ⟨t, ht⟩ := List.isPrefixOf_iff_prefix.1 hcomment
    cases ht
    exact ⟨rfl, .inl rfl⟩
  · obtain ⟨t, ht⟩ := List.isPrefixOf_iff_prefix.1 hcdata
    cases ht
    exact ⟨rfl, .inl rfl⟩
  · obtain ⟨t, ht⟩ := List.isPrefixOf_iff_prefix.1 hpi
    cases ht
    exact ⟨rfl, .inr rfl⟩

/-- The mark that must not stand in content does not begin in front of a tag. -/
theorem mark_append (d rest : List Char) :
    "]]>".toList.isPrefixOf (d ++ '<' :: rest) = "]]>".toList.isPrefixOf d := by
  match d with
  | [] => rfl
  | [c] => exact (Bool.and_false _).trans (Bool.and_false _).symm
  | [c, c'] => rfl
  | c :: c' :: c'' :: d => rfl

theorem content_markup {cs r : List Char} (h : skipMarkup ('<' :: cs) = some r) (fuel : ℕ) :
    content (fuel + 1) ('<' :: cs) = content fuel r := by
  rw [content, if_pos rfl]
  rcases (skipMarkup_head h).2 with hhead | hhead <;> rw [hhead, h] <;> rfl

theorem content_reference (fuel : ℕ) (cs : List Char) :
    content (fuel + 1) ('&' :: cs) = (skipReference cs).bind (content fuel) := by
  rw [content, if_neg (by decide), if_pos rfl]

theorem content_char {c : Char} {cs : List Char} (hlt : c ≠ '<') (hamp : c ≠ '&')
    (hok : ¬ ("]]>".toList.isPrefixOf (c :: cs) || !isChar c) = true) (fuel : ℕ) :
    content (fuel + 1) (c :: cs) = content fuel cs := by
  rw [content, if_neg hlt, if_neg hamp, if_neg hok]

/-- **Text adds no elements.** -/
theorem content_text {n : ℕ} {d : List Char} (h : isText n d = true) : ∃ k ≤ n, ∀ fuel rest,
    content (fuel + k) (d ++ '<' :: rest) = content fuel ('<' :: rest) := by
  induction n generalizing d with
  | zero =>
    cases d with
    | nil => exact ⟨0, Nat.le_refl 0, fun _ _ => rfl⟩
    | cons c cs => exact nomatch h
  | succ n ih =>
    cases d with
    | nil => exact ⟨0, Nat.zero_le _, fun _ _ => rfl⟩
    | cons c cs =>
      rw [isText] at h
      by_cases hlt : c = '<'
      · subst hlt
        rw [if_pos rfl, Option.any_eq_true] at h
        obtain ⟨r, hskip, hr⟩ := h
        obtain ⟨k, hk, hcontent⟩ := ih hr
        refine ⟨k + 1, Nat.succ_le_succ hk, fun fuel rest => ?_⟩
        have hmarkup : skipMarkup ('<' :: (cs ++ '<' :: rest)) = some (r ++ '<' :: rest) := skipMarkup_append hskip _
        rw [← Nat.add_assoc, List.cons_append, content_markup hmarkup, hcontent]
      rw [if_neg hlt] at h
      by_cases hamp : c = '&'
      · subst hamp
        rw [if_pos rfl, Option.any_eq_true] at h
        obtain ⟨r, hskip, hr⟩ := h
        obtain ⟨k, hk, hcontent⟩ := ih hr
        refine ⟨k + 1, Nat.succ_le_succ hk, fun fuel rest => ?_⟩
        rw [← Nat.add_assoc, List.cons_append, content_reference, skipReference_append hskip ('<' :: rest),
          Option.bind_some, hcontent]
      rw [if_neg hamp] at h
      split_ifs at h with hmark
      obtain ⟨k, hk, hcontent⟩ := ih h
      refine ⟨k + 1, Nat.succ_le_succ hk, fun fuel rest => ?_⟩
      rw [← mark_append (c :: cs) rest, List.cons_append] at hmark
      rw [← Nat.add_assoc, List.cons_append, content_char hlt hamp hmark, hcontent]

theorem digit_lt (base : ℕ) : digit base '<' = none := by
  have hvalue : ¬ base < base := Nat.lt_irrefl base
  simp [digit]

/-- The digits of a numeric reference are none of the marks. -/
theorem charRef_lt {base : ℕ} {ds : List Char} {x : Char} (h : charRef base ds = some x) : '<' ∉ ds := by
  unfold charRef at h
  split_ifs at h with hnil
  obtain ⟨n, hn, -⟩ := Option.bind_eq_some_iff.1 h
  suffices hdigits : ∀ m, ds.foldlM (fun n d => (digit base d).map (base * n + ·)) m = some n → '<' ∉ ds from hdigits 0 hn
  clear h hn hnil
  induction ds with
  | nil => exact fun _ _ => List.not_mem_nil
  | cons d ds ih =>
    intro m hm
    rw [List.foldlM_cons, Option.bind_eq_bind] at hm
    obtain ⟨m', hd, hrest⟩ := Option.bind_eq_some_iff.1 hm
    rw [List.mem_cons, not_or]
    refine ⟨?_, ih m' hrest⟩
    rintro rfl
    rw [digit_lt] at hd
    exact nomatch hd

theorem entity_lt {s : List Char} {x : Char} (h : entity s = some x) : '<' ∉ s := by
  unfold entity at h
  split at h
  case h_6 => simpa using charRef_lt h
  case h_7 => simpa using charRef_lt h
  case h_8 => exact nomatch h
  all_goals decide

/-- A reference that ends behind a tag is none. -/
theorem skipReference_data {cs rest r : List Char} (h : skipReference (cs ++ '<' :: rest) = some r) :
    ∃ r', skipReference cs = some r' ∧ r = r' ++ '<' :: rest ∧ ∃ pre, cs = pre ++ r' := by
  cases hd : cs.dropWhile (· ≠ ';') with
  | nil =>
    have hall : ∀ c ∈ cs, (decide (c ≠ ';')) = true := List.dropWhile_eq_nil_iff.1 hd
    unfold skipReference at h
    split at h
    · exact nomatch h
    · obtain ⟨x, hx, -⟩ := Option.map_eq_some_iff.1 h
      refine absurd ?_ (entity_lt hx)
      rw [List.takeWhile_append_of_pos hall]
      exact List.mem_append_right _ (by rw [List.takeWhile_cons_of_pos (by decide)]; exact List.mem_cons_self)
  | cons c r' =>
    obtain ⟨htake, hdrop⟩ := takeWhile_append_of_drop hd ('<' :: rest)
    unfold skipReference at h ⊢
    rw [hdrop, htake] at h
    rw [hd]
    obtain ⟨x, hx, rfl⟩ := Option.map_eq_some_iff.1 h
    refine ⟨r', by simp only [hx, Option.map_some], rfl, cs.takeWhile (· ≠ ';') ++ [c], ?_⟩
    rw [List.append_assoc, List.singleton_append, ← hd, List.takeWhile_append_dropWhile]

/-- **Data without tags that is read is text**, whatever the fuel. -/
theorem text_of_content {d : List Char} (hd : '<' ∉ d) {fuel : ℕ} {rest r : List Char} {ts : List (Tree (List Char))}
    (h : content fuel (d ++ '<' :: '/' :: rest) = some (ts, r)) :
    (∀ n, d.length ≤ n → isText n d = true) ∧ ts = [] ∧ r = '<' :: '/' :: rest := by
  induction fuel generalizing d with
  | zero => exact nomatch h
  | succ fuel ih =>
    cases d with
    | nil =>
      rw [List.nil_append, content_end] at h
      cases h
      refine ⟨fun n _ => ?_, rfl, rfl⟩
      cases n <;> rfl
    | cons c cs =>
      rw [List.mem_cons, not_or] at hd
      have hlt : c ≠ '<' := fun heq => hd.1 heq.symm
      have hlen : ∀ n, (c :: cs).length ≤ n → ∃ m, n = m + 1 ∧ cs.length ≤ m := fun n hn =>
        ⟨n - 1, by rw [List.length_cons] at hn; omega, by rw [List.length_cons] at hn; omega⟩
      by_cases hamp : c = '&'
      · subst hamp
        rw [List.cons_append, content_reference] at h
        obtain ⟨r', hskip, hread⟩ := Option.bind_eq_some_iff.1 h
        obtain ⟨cs', hcs', rfl, pre, rfl⟩ := skipReference_data hskip
        obtain ⟨htext, hrest⟩ := ih (fun hmem => hd.2 (List.mem_append_right _ hmem)) hread
        refine ⟨fun n hn => ?_, hrest⟩
        obtain ⟨m, rfl, hm⟩ := hlen n hn
        rw [List.length_append] at hm
        rw [isText, if_neg hlt, if_pos rfl, hcs', Option.any_some, htext m (by omega)]
      · by_cases hok : ("]]>".toList.isPrefixOf (c :: cs) || !isChar c) = true
        · have hok' := hok
          rw [← mark_append (c :: cs) ('/' :: rest)] at hok'
          rw [List.cons_append, content, if_neg hlt, if_neg hamp, ← List.cons_append, if_pos hok'] at h
          exact nomatch h
        · have hok' := hok
          rw [← mark_append (c :: cs) ('/' :: rest), List.cons_append] at hok'
          rw [List.cons_append, content_char hlt hamp hok'] at h
          obtain ⟨htext, hrest⟩ := ih hd.2 h
          refine ⟨fun n hn => ?_, hrest⟩
          obtain ⟨m, rfl, hm⟩ := hlen n hn
          rw [isText, if_neg hlt, if_neg hamp, if_neg hok, htext m hm]

/-! ## Tags -/

/-- What is read up to here has no `<`. -/
def Skips (cs r : List Char) : Prop := ∃ pre, cs = pre ++ r ∧ '<' ∉ pre

theorem Skips.refl (cs : List Char) : Skips cs cs := ⟨[], rfl, List.not_mem_nil⟩

theorem Skips.cons {c : Char} {cs r : List Char} (hc : c ≠ '<') (h : Skips cs r) : Skips (c :: cs) r := by
  obtain ⟨pre, rfl, hpre⟩ := h
  exact ⟨c :: pre, rfl, by rw [List.mem_cons, not_or]; exact ⟨hc.symm, hpre⟩⟩

theorem Skips.trans {as bs cs : List Char} (h : Skips as bs) (h' : Skips bs cs) : Skips as cs := by
  obtain ⟨pre, rfl, hpre⟩ := h
  obtain ⟨pre', rfl, hpre'⟩ := h'
  refine ⟨pre ++ pre', (List.append_assoc ..).symm, ?_⟩
  rw [List.mem_append, not_or]
  exact ⟨hpre, hpre'⟩

theorem Skips.count {cs r : List Char} (h : Skips cs r) : cs.count '<' = r.count '<' := by
  obtain ⟨pre, rfl, hpre⟩ := h
  rw [List.count_append, List.count_eq_zero.2 hpre, Nat.zero_add]

theorem Skips.suffix {cs r : List Char} (h : Skips cs r) : r <:+ cs := by
  obtain ⟨pre, rfl, -⟩ := h
  exact List.suffix_append pre r

theorem skips_dropWhile {p : Char → Bool} (hp : p '<' = false) (cs : List Char) : Skips cs (cs.dropWhile p) := by
  refine ⟨cs.takeWhile p, List.takeWhile_append_dropWhile.symm, fun hmem => ?_⟩
  exact nomatch hp.symm.trans (List.mem_takeWhile_imp hmem)

theorem skips_parseName {cs name r : List Char} (h : parseName cs = some (name, r)) : Skips cs r ∧ '<' ∉ name := by
  unfold parseName at h
  split_ifs at h with hname
  rw [Option.some.injEq, Prod.mk.injEq] at h
  obtain ⟨rfl, rfl⟩ := h
  exact ⟨skips_dropWhile (by decide) cs, fun hmem => absurd (List.mem_takeWhile_imp hmem) (by decide)⟩

theorem skips_skipReference {cs r : List Char} (h : skipReference cs = some r) : Skips cs r := by
  unfold skipReference at h
  split at h
  · exact nomatch h
  · rename_i c r' hd
    obtain ⟨x, hx, rfl⟩ := Option.map_eq_some_iff.1 h
    have hc : c = ';' := by
      have hnot := List.head?_dropWhile_not (· ≠ ';') cs
      rw [hd] at hnot
      simpa using hnot
    refine ⟨cs.takeWhile (· ≠ ';') ++ [c], ?_, ?_⟩
    · rw [List.append_assoc, List.singleton_append, ← hd, List.takeWhile_append_dropWhile]
    · rw [List.mem_append, List.mem_singleton, not_or, hc]
      exact ⟨entity_lt hx, by decide⟩

theorem expandFrom_lt {ref : Option (List Char)} {cs v : List Char} (h : expandFrom ref cs = some v) :
    (∀ s ∈ ref, '<' ∉ s) ∧ '<' ∉ cs := by
  induction cs generalizing ref v with
  | nil =>
    cases ref with
    | none => exact ⟨fun s hs => (nomatch hs), List.not_mem_nil⟩
    | some ref => exact nomatch h
  | cons c cs ih =>
    rw [List.mem_cons, not_or]
    cases ref with
    | none =>
      rw [expandFrom] at h
      refine ⟨fun s hs => (nomatch hs), ?_⟩
      by_cases hamp : c = '&'
      · rw [if_pos hamp] at h
        rw [hamp]
        exact ⟨by decide, (ih h).2⟩
      · rw [if_neg hamp] at h
        by_cases hbad : (c = '<' || !isChar c) = true
        · rw [if_pos hbad] at h
          exact nomatch h
        · rw [if_neg hbad] at h
          obtain ⟨w, hw, -⟩ := Option.map_eq_some_iff.1 h
          refine ⟨?_, (ih hw).2⟩
          rintro rfl
          exact hbad rfl
    | some ref =>
      rw [expandFrom] at h
      split_ifs at h with hc
      · obtain ⟨x, hx, h⟩ := Option.bind_eq_some_iff.1 h
        obtain ⟨w, hw, -⟩ := Option.map_eq_some_iff.1 h
        rw [hc]
        refine ⟨fun s hs => ?_, by decide, (ih hw).2⟩
        cases hs
        exact entity_lt hx
      · obtain ⟨href, hcs⟩ := ih h
        have hboth := href _ rfl
        rw [List.mem_append, List.mem_singleton, not_or] at hboth
        refine ⟨fun s hs => ?_, hboth.2, hcs⟩
        cases hs
        exact hboth.1

theorem skips_parseValue {quote : Char} (hquote : quote ≠ '<') {cs v r : List Char}
    (h : parseValue quote cs = some (v, r)) : Skips cs r := by
  unfold parseValue at h
  split at h
  · exact nomatch h
  · rename_i c r' hd
    obtain ⟨w, hw, heq⟩ := Option.map_eq_some_iff.1 h
    obtain rfl := congrArg Prod.snd heq
    have hc : c = quote := by
      have hnot := List.head?_dropWhile_not (· ≠ quote) cs
      rw [hd] at hnot
      simpa using hnot
    refine ⟨cs.takeWhile (· ≠ quote) ++ [c], ?_, ?_⟩
    · rw [List.append_assoc, List.singleton_append, ← hd, List.takeWhile_append_dropWhile]
    · rw [List.mem_append, List.mem_singleton, not_or, hc]
      exact ⟨(expandFrom_lt hw).2, hquote.symm⟩

theorem skips_parseEqValue {cs v r : List Char} (h : parseEqValue cs = some (v, r)) : Skips cs r := by
  have hspace : ∀ l, Skips l (skipSpace l) := skips_dropWhile (by decide)
  unfold parseEqValue at h
  split at h
  · rename_i r' hskip
    have hquoted : Skips (skipSpace r') r := by
      unfold parseQuoted at h
      split at h
      · rename_i q hq
        rw [hq]
        exact (skips_parseValue (by decide) h).cons (by decide)
      · rename_i q hq
        rw [hq]
        exact (skips_parseValue (by decide) h).cons (by decide)
      · exact nomatch h
    exact (hspace cs).trans (hskip ▸ ((hspace r').trans hquoted).cons (by decide))
  · exact nomatch h

theorem skips_parseAttributes {fuel : ℕ} {cs r : List Char} {as : List (List Char × List Char)}
    (h : parseAttributes fuel cs = some (as, r)) : Skips cs r := by
  induction fuel generalizing cs as with
  | zero => exact nomatch h
  | succ fuel ih =>
    have hspace : Skips cs (skipSpace cs) := skips_dropWhile (by decide) cs
    unfold parseAttributes at h
    dsimp only at h
    split_ifs at h
    · rw [Option.some.injEq, Prod.mk.injEq] at h
      exact h.2 ▸ hspace
    · obtain ⟨⟨name, r1⟩, hname, h⟩ := Option.bind_eq_some_iff.1 h
      obtain ⟨⟨value, r2⟩, hvalue, h⟩ := Option.bind_eq_some_iff.1 h
      obtain ⟨⟨attributes, r3⟩, hrest, h⟩ := Option.bind_eq_some_iff.1 h
      obtain rfl := congrArg Prod.snd (Option.some.inj h)
      exact hspace.trans ((skips_parseName hname).1.trans ((skips_parseEqValue hvalue).trans (ih hrest)))

theorem skips_startTag {cs name r : List Char} {as : List (List Char × List Char)} {empty : Bool}
    (h : startTag cs = some (name, as, empty, r)) : Skips cs r ∧ '<' ∉ name := by
  unfold startTag at h
  obtain ⟨⟨n, r1⟩, hname, h⟩ := Option.bind_eq_some_iff.1 h
  obtain ⟨⟨attributes, r2⟩, hattributes, h⟩ := Option.bind_eq_some_iff.1 h
  dsimp only at h
  have hboth := (skips_parseName hname).1.trans (skips_parseAttributes hattributes)
  split_ifs at h
  split at h
  · simp only [Option.some.injEq, Prod.mk.injEq] at h
    obtain ⟨rfl, -, -, rfl⟩ := h
    exact ⟨hboth.trans ((Skips.refl _).cons (by decide)), (skips_parseName hname).2⟩
  · simp only [Option.some.injEq, Prod.mk.injEq] at h
    obtain ⟨rfl, -, -, rfl⟩ := h
    exact ⟨hboth.trans (((Skips.refl _).cons (by decide)).cons (by decide)), (skips_parseName hname).2⟩
  · exact nomatch h

theorem endTag_count {name cs r : List Char} (hname : '<' ∉ name) (h : endTag name cs = some r) :
    cs.count '<' = r.count '<' + 1 ∧ r <:+ cs := by
  unfold endTag at h
  split_ifs at h with hp
  obtain ⟨t, rfl⟩ := List.isPrefixOf_iff_prefix.1 hp
  have hdrop : ('<' :: '/' :: name ++ t).drop (name.length + 2) = t := by
    show (name ++ t).drop name.length = t
    exact List.drop_left
  rw [hdrop] at h
  split at h
  · rename_i r' hskip
    obtain rfl := Option.some.inj h
    have hskips : Skips t r' :=
      (show Skips t (skipSpace t) from skips_dropWhile (by decide) t).trans (hskip ▸ (Skips.refl r').cons (by decide))
    refine ⟨?_, hskips.suffix.trans (List.suffix_append _ t)⟩
    rw [List.cons_append, List.cons_append, List.count_cons_self, List.count_cons_of_ne (by decide), List.count_append,
      List.count_eq_zero.2 hname, hskips.count, Nat.zero_add]
  · exact nomatch h

theorem noDeclaration_suffix {cs r : List Char} (h : noDeclaration cs = true) (hr : r <:+ cs) : noDeclaration r = true := by
  obtain ⟨pre, rfl⟩ := hr
  induction pre with
  | nil => exact h
  | cons c pre ih =>
    rw [List.cons_append, noDeclaration, Bool.and_eq_true] at h
    exact ih h.2

theorem noDeclaration_append {c : Char} (hc : c ≠ '!' ∧ c ≠ '?') (as cs : List Char) :
    noDeclaration (as ++ c :: cs) = (noDeclaration as && noDeclaration (c :: cs)) := by
  induction as with
  | nil => rfl
  | cons a as ih =>
    cases as with
    | nil => simp [noDeclaration, hc.1, hc.2]
    | cons a' as =>
      show (_ && noDeclaration (a' :: as ++ c :: cs)) = ((_ && noDeclaration (a' :: as)) && noDeclaration (c :: cs))
      rw [ih, Bool.and_assoc]
      rfl

theorem noDeclaration_cons {c : Char} (hc : c ≠ '<') (cs : List Char) : noDeclaration (c :: cs) = noDeclaration cs := by
  simp [noDeclaration, hc]

theorem noDeclaration_name {name : List Char} (h : isName name = true) (cs : List Char) :
    noDeclaration (name ++ cs) = noDeclaration cs := by
  have hall := isName_all h
  clear h
  induction name with
  | nil => rfl
  | cons c name ih =>
    rw [List.forall_mem_cons] at hall
    have hc : c ≠ '<' := by
      rintro rfl
      exact absurd hall.1 (by decide)
    rw [List.cons_append, noDeclaration_cons hc, ih hall.2]

theorem noDeclaration_tag {c : Char} (hc : c ≠ '!' ∧ c ≠ '?') (cs : List Char) :
    noDeclaration ('<' :: c :: cs) = noDeclaration (c :: cs) := by
  simp [noDeclaration, hc.1, hc.2]

theorem not_skipMarkup {c : Char} {cs : List Char} (h : noDeclaration (c :: cs) = true) :
    skipMarkup (c :: cs) = none := by
  cases hskip : skipMarkup (c :: cs) with
  | none => rfl
  | some r =>
    rw [noDeclaration] at h
    obtain ⟨rfl, hhead⟩ := skipMarkup_head hskip
    rcases hhead with hhead | hhead <;> simp [hhead] at h

/-- An element has two tags at most. Its first `<` has been read. -/
theorem element_count {content : List Char → Option (List (Tree (List Char)) × List Char)} {cs r : List Char}
    {t : Tree (List Char)} (hcontent : ∀ l ts l', l <:+ cs → content l = some (ts, l') →
      l.count '<' ≤ l'.count '<' + 2 * Tree.sizeList ts ∧ l' <:+ l)
    (h : element content cs = some (t, r)) : cs.count '<' + 1 ≤ r.count '<' + 2 * t.size ∧ r <:+ cs := by
  unfold element at h
  obtain ⟨⟨name, attributes, empty, r1⟩, hstart, h⟩ := Option.bind_eq_some_iff.1 h
  obtain ⟨hskips, hname⟩ := skips_startTag hstart
  have hcount := hskips.count
  dsimp only at h
  split_ifs at h
  · rw [Option.some.injEq, Prod.mk.injEq] at h
    obtain ⟨rfl, rfl⟩ := h
    exact ⟨by rw [Tree.size, Tree.sizeList]; omega, hskips.suffix⟩
  · obtain ⟨⟨children, r2⟩, hchildren, h⟩ := Option.bind_eq_some_iff.1 h
    obtain ⟨r3, hend, h⟩ := Option.bind_eq_some_iff.1 h
    rw [Option.some.injEq, Prod.mk.injEq] at h
    obtain ⟨rfl, rfl⟩ := h
    obtain ⟨hle, hsuffix⟩ := hcontent r1 children r2 hskips.suffix hchildren
    obtain ⟨hone, hsuffix'⟩ : r2.count '<' = r3.count '<' + 1 ∧ r3 <:+ r2 := endTag_count hname hend
    refine ⟨?_, hsuffix'.trans (hsuffix.trans hskips.suffix)⟩
    dsimp only [Tree.size]
    omega

/-- **Each `<` that is read is one of the two tags of an element.** -/
theorem content_count {fuel : ℕ} {cs r : List Char} {ts : List (Tree (List Char))} (hcs : noDeclaration cs = true)
    (h : content fuel cs = some (ts, r)) : cs.count '<' ≤ r.count '<' + 2 * Tree.sizeList ts ∧ r <:+ cs := by
  induction fuel generalizing cs ts r with
  | zero => exact nomatch h
  | succ fuel ih =>
    cases cs with
    | nil => exact nomatch h
    | cons c cs =>
      have hrest : noDeclaration cs = true := noDeclaration_suffix hcs (List.suffix_cons c cs)
      rw [content] at h
      by_cases hlt : c = '<'
      · subst hlt
        rw [if_pos rfl] at h
        split at h
        · rw [Option.some.injEq, Prod.mk.injEq] at h
          obtain ⟨rfl, rfl⟩ := h
          exact ⟨Nat.le_add_right _ _, List.suffix_refl _⟩
        · rw [not_skipMarkup hcs] at h
          exact nomatch h
        · rw [not_skipMarkup hcs] at h
          exact nomatch h
        · obtain ⟨⟨t, r1⟩, helement, h⟩ := Option.bind_eq_some_iff.1 h
          obtain ⟨⟨ts', r2⟩, hcontent, h⟩ := Option.bind_eq_some_iff.1 h
          obtain ⟨rfl, rfl⟩ := Prod.mk.inj (Option.some.inj h)
          obtain ⟨hcount, hsuffix⟩ := element_count
            (fun l ts l' hl => ih (noDeclaration_suffix hrest hl)) helement
          obtain ⟨hcount', hsuffix'⟩ := ih (noDeclaration_suffix hrest hsuffix) hcontent
          refine ⟨?_, (hsuffix'.trans hsuffix).trans (List.suffix_cons _ _)⟩
          rw [List.count_cons_self, Tree.sizeList]
          omega
      · rw [if_neg hlt] at h
        rw [List.count_cons_of_ne hlt]
        split_ifs at h
        · obtain ⟨r1, hskip, h⟩ := Option.bind_eq_some_iff.1 h
          have hskips := skips_skipReference hskip
          obtain ⟨hcount, hsuffix⟩ := ih (noDeclaration_suffix hrest hskips.suffix) h
          exact ⟨hskips.count ▸ hcount, (hsuffix.trans hskips.suffix).trans (List.suffix_cons _ _)⟩
        · obtain ⟨hcount, hsuffix⟩ := ih hrest h
          exact ⟨hcount, hsuffix.trans (List.suffix_cons _ _)⟩

theorem isMisc_lt {n : ℕ} {cs : List Char} (hcs : noDeclaration cs = true) (h : isMisc n cs = true) : '<' ∉ cs := by
  induction n generalizing cs with
  | zero =>
    cases cs with
    | nil => exact List.not_mem_nil
    | cons c cs => exact nomatch h
  | succ n ih =>
    cases cs with
    | nil => exact List.not_mem_nil
    | cons c cs =>
      have hrest : noDeclaration cs = true := noDeclaration_suffix hcs (List.suffix_cons c cs)
      rw [isMisc] at h
      rw [List.mem_cons, not_or]
      split_ifs at h with hspace hcdata
      · refine ⟨?_, ih hrest h⟩
        rintro rfl
        exact absurd hspace (by decide)
      · rw [not_skipMarkup hcs] at h
        exact nomatch h

end Lib.Xml
