import CaptureHPC.Lib.Xml
import CaptureHPC.Spec.ClientXml

/-!
# What `xml_escape` reaches

The loop of `xml_escape` runs to the length of the string it was given while the string it
scans grows, so the end may not be scanned.

* `escapeText k`: a text of which the loop still makes `k` steps.
* `unscanned k`: the part of it that is left as it is.
* `reads_escapeText_iff`: the text is read back, and contains no markup, exactly if there is
  no markup in that part and the reader keeps every character.
-/

namespace CaptureHPC

open Lib

namespace Cpp.Server

/-! ## The loop as a recursion -/

/-- The loop from a position on, when it has `k` steps left. -/
def escapeUpTo (k : ℕ) : WString → WString
  | [] => []
  | w :: ws =>
    if k = 0 then w :: ws
    else
      match entityOf w with
      | some entity => entity ++ escapeUpTo (k - entity.length) ws
      | none => w :: escapeUpTo (k - 1) ws

theorem escapeUpTo_zero (ws : WString) : escapeUpTo 0 ws = ws := by
  cases ws with
  | nil => rfl
  | cons w ws => rw [escapeUpTo, if_pos rfl]

theorem escapeAt_of_le {escaped : WString} {i : ℕ} (h : escaped.length ≤ i) : escapeAt escaped i = escaped := by
  unfold escapeAt
  rw [List.getElem?_eq_none h, Option.bind_none]

theorem getElem?_length_append (pre : WString) (w : WChar) (ws : WString) : (pre ++ w :: ws)[pre.length]? = some w := by
  rw [List.getElem?_append_right (Nat.le_refl _), Nat.sub_self, List.getElem?_cons_zero]

/-- A step at a unit that is no markup. -/
theorem escapeAt_none {w : WChar} (h : entityOf w = none) (pre ws : WString) :
    escapeAt (pre ++ w :: ws) pre.length = pre ++ w :: ws := by
  unfold escapeAt
  rw [getElem?_length_append, Option.bind_some, h]

/-- A step at a markup unit. -/
theorem escapeAt_some {w : WChar} {entity : WString} (h : entityOf w = some entity) (pre ws : WString) :
    escapeAt (pre ++ w :: ws) pre.length = pre ++ entity ++ ws := by
  unfold escapeAt
  rw [getElem?_length_append, Option.bind_some, h]
  dsimp only
  rw [List.take_left]
  congr 1
  rw [List.append_cons, List.drop_left' (by simp)]

theorem foldl_beyond (k : ℕ) {i : ℕ} {escaped : WString} (h : escaped.length ≤ i) :
    (List.range' i k).foldl escapeAt escaped = escaped := by
  induction k generalizing i with
  | zero => rfl
  | succ k ih => rw [List.range'_succ, List.foldl_cons, escapeAt_of_le h, ih (by omega)]

/-- The loop passes over units that are no markup. -/
theorem foldl_skip {t : WString} (ht : ∀ w ∈ t, entityOf w = none) (k : ℕ) (pre ws : WString) :
    (List.range' pre.length k).foldl escapeAt (pre ++ (t ++ ws)) =
      (List.range' (pre.length + t.length) (k - t.length)).foldl escapeAt (pre ++ (t ++ ws)) := by
  induction t generalizing k pre with
  | nil => rfl
  | cons w t ih =>
    cases k with
    | zero => rw [Nat.zero_sub]; rfl
    | succ k =>
      have hrest := ih (fun x hx => ht x (List.mem_cons_of_mem _ hx)) k (pre ++ [w])
      rw [List.length_append, List.length_singleton, List.append_assoc, List.singleton_append] at hrest
      rw [List.range'_succ, List.foldl_cons, List.cons_append, escapeAt_none (ht w List.mem_cons_self), hrest,
        List.length_cons, Nat.add_assoc, Nat.add_comm 1, Nat.add_sub_add_right]

/-- An entity is a markup unit and units that are none. -/
theorem entityOf_tail {w : WChar} {entity : WString} (h : entityOf w = some entity) :
    ∃ t, entity = 0x26 :: t ∧ ∀ x ∈ t, entityOf x = none := by
  suffices hall : ∃ t, entity = 0x26 :: t ∧ (t.all fun x => (entityOf x).isNone) = true by
    obtain ⟨t, ht, hnone⟩ := hall
    exact ⟨t, ht, fun x hx => Option.isNone_iff_eq_none.1 (List.all_eq_true.1 hnone x hx)⟩
  unfold entityOf at h
  split_ifs at h <;> cases h
  · exact ⟨lit "amp;", rfl, by decide⟩
  · exact ⟨lit "lt;", rfl, by decide⟩
  · exact ⟨lit "gt;", rfl, by decide⟩
  · exact ⟨lit "quot;", rfl, by decide⟩
  · exact ⟨lit "apos;", rfl, by decide⟩

theorem foldl_escapeAt (ws : WString) (k : ℕ) (pre : WString) :
    (List.range' pre.length k).foldl escapeAt (pre ++ ws) = pre ++ escapeUpTo k ws := by
  induction ws generalizing k pre with
  | nil => rw [foldl_beyond k (by simp), escapeUpTo]
  | cons w ws ih =>
    cases k with
    | zero => rw [escapeUpTo_zero]; rfl
    | succ k =>
      rw [List.range'_succ, List.foldl_cons, escapeUpTo, if_neg (Nat.succ_ne_zero k)]
      cases hw : entityOf w with
      | none =>
        have hrest := ih k (pre ++ [w])
        rw [List.length_append, List.length_singleton, List.append_assoc, List.singleton_append] at hrest
        rw [escapeAt_none hw, hrest, List.append_assoc, List.singleton_append]
        rfl
      | some entity =>
        obtain ⟨t, rfl, ht⟩ := entityOf_tail hw
        have hskip := foldl_skip ht k (pre ++ [0x26]) ws
        have hrest := ih (k - t.length) (pre ++ 0x26 :: t)
        rw [List.length_append, List.length_singleton, List.append_assoc, List.singleton_append, ← List.cons_append,
          ← List.append_assoc] at hskip
        rw [List.length_append, List.length_cons, Nat.add_comm t.length, ← Nat.add_assoc] at hrest
        rw [escapeAt_some hw, hskip, hrest, List.append_assoc]
        dsimp only
        rw [List.length_cons, Nat.add_sub_add_right]

/-- `xml_escape` makes as many steps as the string has units. -/
theorem xmlEscape_eq (xml : WString) : xmlEscape xml = escapeUpTo xml.length xml := by
  have h := foldl_escapeAt xml xml.length []
  rwa [List.length_nil, List.nil_append, List.nil_append, ← List.range_eq_range'] at h

/-! ## The loop on texts -/

/-- The entity of a markup character. -/
def textEntity (c : Char) : Option (List Char) :=
  if c = '&' then some "&amp;".toList
  else if c = '<' then some "&lt;".toList
  else if c = '>' then some "&gt;".toList
  else if c = '"' then some "&quot;".toList
  else if c = '\'' then some "&apos;".toList
  else none

/-- How many steps a character takes. -/
def steps (c : Char) : ℕ :=
  match textEntity c with
  | some entity => entity.length
  | none => (unitsOf c).length

def escapeText (k : ℕ) : List Char → List Char
  | [] => []
  | c :: cs => if k = 0 then c :: cs else (textEntity c).getD [c] ++ escapeText (k - steps c) cs

/-- What is left when the steps are used up. -/
def unscanned (k : ℕ) : List Char → List Char
  | [] => []
  | c :: cs => if k = 0 then c :: cs else unscanned (k - steps c) cs

theorem escapeText_zero (cs : List Char) : escapeText 0 cs = cs := by
  cases cs with
  | nil => rfl
  | cons c cs => rw [escapeText, if_pos rfl]

/-- The units of markup are its characters. -/
theorem entityOf_eq (w : WChar) : entityOf w = (textEntity (charOf w.toNat)).map units := by
  have hc : ∀ c : Char, c.toNat < 0xD800 → (charOf w.toNat = c ↔ w = UInt16.ofNat c.toNat) := by
    intro c hc
    constructor
    · intro h
      by_cases hv : w.toNat.isValidChar
      · have hnat : (charOf w.toNat).toNat = w.toNat := by
          unfold charOf
          rw [if_pos hv, Char.toNat_ofNat, if_pos hv]
        rw [← h, hnat, UInt16.ofNat_toNat]
      · exfalso
        unfold charOf at h
        rw [if_neg hv] at h
        rw [← h] at hc
        exact absurd hc (by decide)
    · rintro rfl
      exact charOf_unit (by omega)
  unfold entityOf textEntity
  simp only [hc '&' (by decide), hc '<' (by decide), hc '>' (by decide), hc '"' (by decide), hc '\'' (by decide)]
  show _ = Option.map units (if w = 0x26 then _ else if w = 0x3C then _ else if w = 0x3E then _
    else if w = 0x22 then _ else if w = 0x27 then _ else _)
  split_ifs <;> rfl

theorem charOf_lt (w : WChar) : (charOf w.toNat).toNat < 0x10000 := by
  have hlt : w.toNat < 0x10000 := w.toNat_lt
  unfold charOf
  split_ifs with hv
  · rw [Char.toNat_ofNat, if_pos hv]
    exact hlt
  · decide

theorem head_escapeUpTo {v : WChar} (hv : isLow v = false) (k : ℕ) (ws : WString) :
    ∀ w ∈ (escapeUpTo k (v :: ws)).head?, isLow w = false := by
  intro w hw
  rw [escapeUpTo] at hw
  by_cases hk : k = 0
  · rw [if_pos hk] at hw
    cases hw
    exact hv
  · rw [if_neg hk] at hw
    cases he : entityOf v with
    | none =>
      rw [he] at hw
      cases hw
      exact hv
    | some entity =>
      obtain ⟨t, rfl, -⟩ := entityOf_tail he
      rw [he] at hw
      cases hw
      decide

/-- One unit read by itself. -/
theorem ofUnits_escapeUpTo_cons {k : ℕ} {w : WChar} {ws : WString} (hhead : ∀ k, ∀ v ∈ (escapeUpTo k ws).head?,
    isHigh w = false ∨ isLow v = false) (ih : ∀ k, ofUnits (escapeUpTo k ws) = escapeText k (ofUnits ws)) :
    ofUnits (escapeUpTo k (w :: ws)) = escapeText k (charOf w.toNat :: ofUnits ws) := by
  have hread : ∀ k, ofUnits (w :: escapeUpTo k ws) = charOf w.toNat :: ofUnits (escapeUpTo k ws) := by
    intro k
    by_cases hH : isHigh w = true
    · exact ofUnits_append [w] fun v hv => (hhead k v hv).resolve_left (by rw [hH]; decide)
    · exact ofUnits_cons (by simpa using hH) _
  rw [escapeUpTo, escapeText]
  by_cases hk : k = 0
  · rw [if_pos hk, if_pos hk]
    have h0 := hread 0
    rw [escapeUpTo_zero] at h0
    exact h0
  rw [if_neg hk, if_neg hk, entityOf_eq]
  have hsteps := steps.eq_def (charOf w.toNat)
  cases he : textEntity (charOf w.toNat) with
  | none =>
    rw [he] at hsteps
    dsimp only at hsteps
    rw [hsteps, unitsOf_bmp (charOf_lt w), Option.map_none, Option.getD_none]
    dsimp only
    rw [hread, ih]
    rfl
  | some entity =>
    have hlen : (units entity).length = entity.length := by
      unfold textEntity at he
      split_ifs at he <;> cases he <;> rfl
    rw [he] at hsteps
    dsimp only at hsteps
    rw [hsteps, Option.map_some, Option.getD_some]
    dsimp only
    rw [ofUnits_units_append, hlen, ih]

/-- What the server reads of an escaped string. -/
theorem ofUnits_escapeUpTo (ws : WString) (k : ℕ) : ofUnits (escapeUpTo k ws) = escapeText k (ofUnits ws) := by
  induction ws using ofUnits.induct generalizing k with
  | case1 => rfl
  | case2 w v r hpair ih =>
    rw [Bool.and_eq_true] at hpair
    have hw : w.toNat < 0x10000 := w.toNat_lt
    have hnone : ∀ x : WChar, isHigh x = true ∨ isLow x = true → entityOf x = none := by
      intro x hx
      unfold isHigh isLow at hx
      unfold entityOf
      have hne : ∀ n < 0xD800, x ≠ UInt16.ofNat n := by
        rintro n hn rfl
        rw [toNat_ofNat (by omega)] at hx
        simp at hx
        omega
      rw [if_neg (show x ≠ 0x26 from hne 0x26 (by decide)), if_neg (show x ≠ 0x3C from hne 0x3C (by decide)),
        if_neg (show x ≠ 0x3E from hne 0x3E (by decide)), if_neg (show x ≠ 0x22 from hne 0x22 (by decide)),
        if_neg (show x ≠ 0x27 from hne 0x27 (by decide))]
    have hunits := unitsOf_charOfPair hpair.1 hpair.2
    have htext : textEntity (charOfPair w v) = none := by
      unfold textEntity
      have hne : ∀ c : Char, unitsOf c ≠ [w, v] → charOfPair w v ≠ c := by
        rintro c hc rfl
        exact hc hunits
      have hlen : ∀ c : Char, c.toNat < 0x10000 → unitsOf c ≠ [w, v] := by
        intro c hc h
        rw [unitsOf_bmp hc] at h
        cases h
      rw [if_neg (hne _ (hlen _ (by decide))), if_neg (hne _ (hlen _ (by decide))), if_neg (hne _ (hlen _ (by decide))),
        if_neg (hne _ (hlen _ (by decide))), if_neg (hne _ (hlen _ (by decide)))]
    have hsteps : steps (charOfPair w v) = 2 := by
      rw [steps, htext]
      dsimp only
      rw [hunits]
      rfl
    have hscan : escapeUpTo k (w :: v :: r) = w :: v :: escapeUpTo (k - 2) r := by
      rw [escapeUpTo, hnone w (.inl hpair.1)]
      dsimp only
      rw [escapeUpTo, hnone v (.inr hpair.2)]
      dsimp only
      by_cases hk : k = 0
      · rw [if_pos hk, hk, escapeUpTo_zero]
      · rw [if_neg hk]
        by_cases hk' : k - 1 = 0
        · rw [if_pos hk', show k - 2 = 0 by omega, escapeUpTo_zero]
        · rw [if_neg hk']
          rfl
    have hpair' : (isHigh w && isLow v) = true := by rw [hpair.1, hpair.2]; rfl
    rw [hscan, ofUnits, if_pos hpair', ih, ofUnits, if_pos hpair', escapeText, htext, hsteps, Option.getD_none]
    by_cases hk : k = 0
    · rw [if_pos hk, hk, escapeText_zero]
    · rw [if_neg hk]
      rfl
  | case3 w v r hpair ih =>
    rw [ofUnits, if_neg hpair]
    refine ofUnits_escapeUpTo_cons (fun k x hx => ?_) ih
    rw [Bool.and_eq_true, not_and, Bool.not_eq_true] at hpair
    by_cases hH : isHigh w = true
    · exact .inr (head_escapeUpTo (hpair hH) k r x hx)
    · exact .inl (by simpa using hH)
  | case4 w => exact ofUnits_escapeUpTo_cons (fun k x hx => by cases hx) (fun k => rfl)

/-! ## Reading an escaped text -/

/-- A text without markup: there are only the five entities. -/
def markupFree : List Char → Bool
  | [] => true
  | c :: cs =>
    (if c = '&' then
      ["amp;", "lt;", "gt;", "quot;", "apos;"].any fun entity => entity.toList.isPrefixOf cs
    else textEntity c = none) && markupFree cs

theorem textEntity_eq_none (c : Char) :
    textEntity c = none ↔ c ≠ '&' ∧ c ≠ '<' ∧ c ≠ '>' ∧ c ≠ '"' ∧ c ≠ '\'' := by
  unfold textEntity
  split_ifs <;> simp_all

/-- An entity is read as its character. -/
theorem expand_entity {c : Char} {entity : List Char} (h : textEntity c = some entity) (cs : List Char) :
    Xml.expand (entity ++ cs) = (Xml.expand cs).map (c :: ·) := by
  unfold textEntity at h
  split_ifs at h with h1 h2 h3 h4 h5 <;> cases h
  · rw [h1]; rfl
  · rw [h2]; rfl
  · rw [h3]; rfl
  · rw [h4]; rfl
  · rw [h5]; rfl

theorem markupFree_entity {c : Char} {entity : List Char} (h : textEntity c = some entity) (cs : List Char) :
    markupFree (entity ++ cs) = markupFree cs := by
  unfold textEntity at h
  split_ifs at h <;> cases h <;> simp [markupFree, textEntity]

theorem markup_kept {c : Char} {entity : List Char} (h : textEntity c = some entity) : Xml.isKept c = true := by
  unfold textEntity at h
  split_ifs at h with h1 h2 h3 h4 h5 <;> cases h
  · rw [h1]; decide
  · rw [h2]; decide
  · rw [h3]; decide
  · rw [h4]; decide
  · rw [h5]; decide

theorem quote_of_markupFree {cs : List Char} (h : markupFree cs = true) : '"' ∉ cs := by
  induction cs with
  | nil => exact List.not_mem_nil
  | cons c cs ih =>
    rw [markupFree, Bool.and_eq_true] at h
    rintro (_ | ⟨_, hc⟩)
    · rw [if_neg (by decide)] at h
      exact absurd h.1 (by decide)
    · exact ih h.2 hc

/-- **When an escaped text is read back** and contains no markup. -/
theorem reads_escapeText_iff (k : ℕ) (cs : List Char) :
    Xml.expand (escapeText k cs) = some cs ∧ markupFree (escapeText k cs) = true ↔
      (∀ c ∈ cs, Xml.isKept c = true) ∧ ∀ c ∈ unscanned k cs, textEntity c = none := by
  induction cs generalizing k with
  | nil => simp [escapeText, unscanned, Xml.expand, Xml.expandFrom, markupFree]
  | cons c cs ih =>
    by_cases hk : k = 0
    · -- nothing is scanned any more
      subst hk
      rw [escapeText_zero, unscanned, if_pos rfl, Xml.expand_self_iff]
      constructor
      · rintro ⟨hexp, hfree⟩
        refine ⟨fun x hx => (hexp x hx).1, ?_⟩
        have hall : ∀ (l : List Char), (∀ x ∈ l, x ≠ '&') → markupFree l = true → ∀ x ∈ l, textEntity x = none := by
          intro l hamp hl
          induction l with
          | nil => exact fun x hx => absurd hx List.not_mem_nil
          | cons y l ihl =>
            rw [markupFree, Bool.and_eq_true, if_neg (hamp y List.mem_cons_self)] at hl
            rw [List.forall_mem_cons]
            exact ⟨of_decide_eq_true hl.1, ihl (fun x hx => hamp x (List.mem_cons_of_mem _ hx)) hl.2⟩
        exact hall _ (fun x hx => (hexp x hx).2.2) hfree
      · rintro ⟨hkept, hnone⟩
        have hfree : ∀ l : List Char, (∀ x ∈ l, textEntity x = none) → markupFree l = true := by
          intro l hl
          induction l with
          | nil => rfl
          | cons y l ihl =>
            rw [List.forall_mem_cons] at hl
            rw [markupFree, if_neg ((textEntity_eq_none y).1 hl.1).1, ihl hl.2, hl.1]
            rfl
        refine ⟨fun x hx => ⟨hkept x hx, ?_⟩, hfree _ hnone⟩
        have := (textEntity_eq_none x).1 (hnone x hx)
        exact ⟨this.2.1, this.1⟩
    · rw [escapeText, unscanned, if_neg hk, if_neg hk, List.forall_mem_cons]
      cases he : textEntity c with
      | some entity =>
        rw [Option.getD_some, expand_entity he, markupFree_entity he, and_assoc, ← ih, markup_kept he,
          Option.map_eq_some_iff]
        constructor
        · rintro ⟨⟨v, hv, heq⟩, hfree⟩
          cases heq
          exact ⟨rfl, hv, hfree⟩
        · rintro ⟨-, hv, hfree⟩
          exact ⟨⟨cs, hv, rfl⟩, hfree⟩
      | none =>
        obtain ⟨hamp, hlt, -⟩ := (textEntity_eq_none c).1 he
        rw [Option.getD_none, List.singleton_append, Xml.expand_cons_iff hamp, markupFree, if_neg hamp, he]
        simp only [decide_true, Bool.true_and, ne_eq, hlt, not_false_eq_true, and_true, and_assoc]
        rw [ih]

end Cpp.Server

end CaptureHPC
