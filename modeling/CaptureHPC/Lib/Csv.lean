import Mathlib

/-!
# Comma-separated values

A reader for text in which fields are separated, records end with a line end, and a field may
stand in quotes, where a quote is written twice. `line` writes a record with every field
between quotes and doubles none of them.

* `readRecord_line`: a line whose fields have no quote is read back.
* `clean_of_readRecord`: only such a line is.
* `readAll_lines`: so lines without quotes in their fields are read back one by one.
* `line_inj`: and such a line differs from every other line of as many fields.
-/

namespace Lib

/-- The three marks of the format. -/
structure Csv (α : Type) where
  quote : α
  sep : α
  eol : α
  sep_ne_quote : sep ≠ quote
  eol_ne_quote : eol ≠ quote
  eol_ne_sep : eol ≠ sep

namespace Csv

variable {α : Type} [DecidableEq α] (d : Csv α)

/-- Read a field behind its opening quote, up to the quote that closes it. -/
def readQuoted : List α → Option (List α × List α)
  | [] => none
  | [c] => if c = d.quote then some ([], []) else none
  | c :: c' :: cs =>
    if c = d.quote then
      if c' = d.quote then (readQuoted cs).map fun x => (d.quote :: x.1, x.2) else some ([], c' :: cs)
    else (readQuoted (c' :: cs)).map fun x => (c :: x.1, x.2)

/-- Whether a symbol ends a field without quotes. -/
def ends (c : α) : Bool := c = d.sep || c = d.eol

/-- The text of a field between quotes: each quote twice. -/
def escape (f : List α) : List α := f.flatMap fun c => if c = d.quote then [c, c] else [c]

/-- Read a field: in quotes, or up to the next mark if it has none. -/
def readField (cs : List α) : Option (List α × List α) :=
  if cs.head? = some d.quote then readQuoted d cs.tail
  else if d.quote ∈ cs.takeWhile fun c => !ends d c then none
  else some (cs.takeWhile fun c => !ends d c, cs.dropWhile fun c => !ends d c)

/-- What was read is the escaped field and its closing quote. -/
theorem eq_of_readQuoted {cs f r : List α} (h : readQuoted d cs = some (f, r)) :
    cs = escape d f ++ d.quote :: r := by
  fun_induction readQuoted d cs generalizing f with
  | case1 => cases h
  | case2 =>
    obtain ⟨rfl, rfl⟩ := Prod.mk.inj (Option.some.inj h)
    rfl
  | case3 c hc => cases h
  | case4 cs ih =>
    obtain ⟨x, hx, he⟩ := Option.map_eq_some_iff.1 h
    obtain ⟨rfl, rfl⟩ := Prod.mk.inj he
    rw [ih hx]
    simp [escape]
  | case5 c' cs hc' =>
    obtain ⟨rfl, rfl⟩ := Prod.mk.inj (Option.some.inj h)
    rfl
  | case6 c c' cs hc ih =>
    obtain ⟨x, hx, he⟩ := Option.map_eq_some_iff.1 h
    obtain ⟨rfl, rfl⟩ := Prod.mk.inj he
    rw [ih hx]
    simp [escape, hc]

theorem length_readField {cs f r : List α} (h : readField d cs = some (f, r)) : r.length ≤ cs.length := by
  unfold readField at h
  split_ifs at h
  · have hlen := congrArg List.length (eq_of_readQuoted d h)
    simp only [List.length_tail, List.length_append, List.length_cons] at hlen
    omega
  · obtain ⟨-, rfl⟩ := Prod.mk.inj (Option.some.inj h)
    exact (List.dropWhile_suffix _).length_le

/-- Read the fields up to a line end or the end of the text. -/
def readRecord (cs : List α) : Option (List (List α) × List α) :=
  match _h : readField d cs with
  | none => none
  | some (f, []) => some ([f], [])
  | some (f, c :: r) =>
    if c = d.sep then (readRecord r).map fun x => (f :: x.1, x.2)
    else if c = d.eol then some ([f], r)
    else none
termination_by cs.length
decreasing_by
  have hle := length_readField d _h
  rw [List.length_cons] at hle
  omega

theorem length_readRecord_le {cs : List α} {fs : List (List α)} {r : List α}
    (h : readRecord d cs = some (fs, r)) : r.length ≤ cs.length := by
  fun_induction readRecord d cs generalizing fs with
  | case1 cs hf => cases h
  | case2 cs f hf =>
    obtain ⟨-, rfl⟩ := Prod.mk.inj (Option.some.inj h)
    exact Nat.zero_le _
  | case3 cs f r' hf ih =>
    have hle := length_readField d hf
    rw [List.length_cons] at hle
    obtain ⟨x, hx, he⟩ := Option.map_eq_some_iff.1 h
    obtain ⟨-, rfl⟩ := Prod.mk.inj he
    have hr := ih hx
    omega
  | case4 cs f r' hf hc =>
    have hle := length_readField d hf
    rw [List.length_cons] at hle
    obtain ⟨-, rfl⟩ := Prod.mk.inj (Option.some.inj h)
    omega
  | case5 cs f c r' hf hc hc' => cases h

/-- A record takes something of a text that is not empty. -/
theorem length_readRecord {cs : List α} {fs : List (List α)} {r : List α} (hcs : cs ≠ [])
    (h : readRecord d cs = some (fs, r)) : r.length < cs.length := by
  have hpos := List.length_pos_iff.2 hcs
  rw [readRecord] at h
  split at h
  · cases h
  · obtain ⟨-, rfl⟩ := Prod.mk.inj (Option.some.inj h)
    exact hpos
  · next f c r' hf =>
    have hle := length_readField d hf
    rw [List.length_cons] at hle
    split_ifs at h
    · obtain ⟨x, hx, he⟩ := Option.map_eq_some_iff.1 h
      obtain ⟨-, rfl⟩ := Prod.mk.inj he
      have hr := length_readRecord_le d hx
      omega
    · obtain ⟨-, rfl⟩ := Prod.mk.inj (Option.some.inj h)
      omega

/-- Read a text to its end, record by record. -/
def readAll (cs : List α) : Option (List (List (List α))) :=
  if _hcs : cs = [] then some []
  else
    match _h : readRecord d cs with
    | none => none
    | some (fs, r) => (readAll r).map (fs :: ·)
termination_by cs.length
decreasing_by exact length_readRecord d _hcs _h

/-! ## Lines whose fields all stand in quotes -/

/-- A record with every field between quotes, as it is. -/
def line : List (List α) → List α
  | [] => [d.eol]
  | [f] => d.quote :: f ++ [d.quote, d.eol]
  | f :: f' :: fs => d.quote :: f ++ d.quote :: d.sep :: line (f' :: fs)

variable {d}

theorem readQuoted_clean {f r : List α} {c : α} (hf : d.quote ∉ f) (hc : c ≠ d.quote) :
    readQuoted d (f ++ d.quote :: c :: r) = some (f, c :: r) := by
  induction f with
  | nil => rw [List.nil_append, readQuoted, if_pos rfl, if_neg hc]
  | cons x f ih =>
    rw [List.mem_cons, not_or] at hf
    obtain ⟨hx, hf⟩ := hf
    have hcons : ∃ y l, f ++ d.quote :: c :: r = y :: l := by
      cases f with
      | nil => exact ⟨_, _, rfl⟩
      | cons y f => exact ⟨_, _, rfl⟩
    obtain ⟨y, l, hyl⟩ := hcons
    rw [List.cons_append, hyl, readQuoted, if_neg (Ne.symm hx), ← hyl, ih hf]
    rfl

/-- A field that is written as it is and read back has no quote. The doubled quotes read so
far, `k` of them, are ahead of the text, and no text catches up with them. -/
theorem no_quote_of_escape {f r tail : List α} {c : α} (hc : c ≠ d.quote) {k : ℕ}
    (h : List.replicate k d.quote ++ (escape d f ++ d.quote :: r) = f ++ d.quote :: c :: tail) :
    k = 0 ∧ d.quote ∉ f ∧ r = c :: tail := by
  induction f generalizing k with
  | nil =>
    cases k with
    | zero =>
      obtain ⟨-, hr⟩ := List.cons.inj h
      exact ⟨rfl, List.not_mem_nil, hr⟩
    | succ k =>
      rw [List.replicate_succ, List.cons_append] at h
      obtain ⟨-, h⟩ := List.cons.inj h
      cases k with
      | zero => exact absurd (List.cons.inj h).1.symm hc
      | succ k => exact absurd (List.cons.inj h).1.symm hc
  | cons x f ih =>
    by_cases hx : x = d.quote
    · -- the quote is read twice and stands once, so the reading is further ahead
      have hesc : escape d (x :: f) = List.replicate 2 d.quote ++ escape d f := by
        rw [escape, List.flatMap_cons, if_pos hx, hx]
        rfl
      rw [hesc, ← List.append_assoc, ← List.append_assoc, List.replicate_append_replicate, hx,
        List.append_assoc, List.cons_append, List.replicate_succ, List.cons_append] at h
      obtain ⟨-, h⟩ := List.cons.inj h
      obtain ⟨hk, -⟩ := ih h
      omega
    · have hesc : escape d (x :: f) = x :: escape d f := by
        rw [escape, List.flatMap_cons, if_neg hx]
        rfl
      cases k with
      | zero =>
        rw [hesc] at h
        obtain ⟨-, h⟩ := List.cons.inj h
        obtain ⟨-, hf, hr⟩ := ih (k := 0) h
        refine ⟨rfl, ?_, hr⟩
        rw [List.mem_cons, not_or]
        exact ⟨Ne.symm hx, hf⟩
      | succ k =>
        rw [List.replicate_succ, List.cons_append] at h
        exact absurd (List.cons.inj h).1.symm hx

/-- Reading the fields of such a record one by one. -/
theorem readField_quoted (cs : List α) : readField d (d.quote :: cs) = readQuoted d cs := by
  rw [readField, List.head?_cons, if_pos rfl, List.tail_cons]

theorem readRecord_last {cs f r : List α} (h : readQuoted d cs = some (f, d.eol :: r)) :
    readRecord d (d.quote :: cs) = some ([f], r) := by
  rw [readRecord]
  split
  · next hf => rw [readField_quoted, h] at hf; cases hf
  · next g hf => rw [readField_quoted, h] at hf; cases hf
  · next g c r' hf =>
    rw [readField_quoted, h] at hf
    obtain ⟨rfl, hr⟩ := Prod.mk.inj (Option.some.inj hf)
    obtain ⟨rfl, rfl⟩ := List.cons.inj hr
    rw [if_neg d.eol_ne_sep, if_pos rfl]

theorem readRecord_next {cs f r : List α} (h : readQuoted d cs = some (f, d.sep :: r)) :
    readRecord d (d.quote :: cs) = (readRecord d r).map fun x => (f :: x.1, x.2) := by
  rw [readRecord]
  split
  · next hf => rw [readField_quoted, h] at hf; cases hf
  · next g hf => rw [readField_quoted, h] at hf; cases hf
  · next g c r' hf =>
    rw [readField_quoted, h] at hf
    obtain ⟨rfl, hr⟩ := Prod.mk.inj (Option.some.inj hf)
    obtain ⟨rfl, rfl⟩ := List.cons.inj hr
    rw [if_pos rfl]

/-- **A line without quotes in its fields is read back.** -/
theorem readRecord_line {fs : List (List α)} (hne : fs ≠ []) (hfs : ∀ f ∈ fs, d.quote ∉ f) (r : List α) :
    readRecord d (line d fs ++ r) = some (fs, r) := by
  induction fs with
  | nil => exact absurd rfl hne
  | cons f fs ih =>
    have hf := hfs f List.mem_cons_self
    cases fs with
    | nil =>
      rw [line, List.cons_append, List.cons_append, List.append_assoc]
      exact readRecord_last (readQuoted_clean hf d.eol_ne_quote)
    | cons f' fs =>
      have hrest := ih (List.cons_ne_nil _ _) fun g hg => hfs g (List.mem_cons_of_mem _ hg)
      rw [line, List.cons_append, List.cons_append, List.append_assoc, List.cons_append, List.cons_append,
        readRecord_next (readQuoted_clean hf d.sep_ne_quote), hrest]
      rfl

/-- What a record's first field is, when it stands in quotes. -/
theorem readQuoted_of_readRecord {cs f r : List α} {fs : List (List α)}
    (h : readRecord d (d.quote :: cs) = some (f :: fs, r)) : ∃ r', readQuoted d cs = some (f, r') := by
  rw [readRecord] at h
  split at h
  · cases h
  · next g hf =>
    rw [readField_quoted] at hf
    obtain ⟨hfs, -⟩ := Prod.mk.inj (Option.some.inj h)
    obtain ⟨rfl, -⟩ := List.cons.inj hfs
    exact ⟨_, hf⟩
  · next g c r' hf =>
    rw [readField_quoted] at hf
    split_ifs at h
    · obtain ⟨x, -, he⟩ := Option.map_eq_some_iff.1 h
      obtain ⟨hfs, -⟩ := Prod.mk.inj he
      obtain ⟨rfl, -⟩ := List.cons.inj hfs
      exact ⟨_, hf⟩
    · obtain ⟨hfs, -⟩ := Prod.mk.inj (Option.some.inj h)
      obtain ⟨rfl, -⟩ := List.cons.inj hfs
      exact ⟨_, hf⟩

/-- A field that is read back from where it was written as it is. -/
theorem clean_of_readRecord_cons {f tail r : List α} {c : α} {fs : List (List α)} (hc : c ≠ d.quote)
    (h : readRecord d (d.quote :: (f ++ d.quote :: c :: tail)) = some (f :: fs, r)) : d.quote ∉ f := by
  obtain ⟨r', hq⟩ := readQuoted_of_readRecord h
  have heq := eq_of_readQuoted d hq
  exact (no_quote_of_escape hc (k := 0) heq.symm).2.1

/-- **Only a line without quotes in its fields is read back.** -/
theorem clean_of_readRecord {fs : List (List α)} {r r' : List α}
    (h : readRecord d (line d fs ++ r) = some (fs, r')) : ∀ f ∈ fs, d.quote ∉ f := by
  induction fs with
  | nil => simp
  | cons f fs ih =>
    cases fs with
    | nil =>
      rw [line, List.cons_append, List.cons_append, List.append_assoc] at h
      have hf := clean_of_readRecord_cons d.eol_ne_quote h
      simpa using hf
    | cons f' fs =>
      rw [line, List.cons_append, List.cons_append, List.append_assoc, List.cons_append,
        List.cons_append] at h
      have hf := clean_of_readRecord_cons d.sep_ne_quote h
      rw [readRecord_next (readQuoted_clean hf d.sep_ne_quote)] at h
      obtain ⟨x, hx, he⟩ := Option.map_eq_some_iff.1 h
      obtain ⟨hfs, rfl⟩ := Prod.mk.inj he
      obtain ⟨-, hfs⟩ := List.cons.inj hfs
      have hrest := ih (by rw [hx, ← hfs])
      intro g hg
      rcases List.mem_cons.1 hg with rfl | hg
      · exact hf
      · exact hrest g hg

omit [DecidableEq α] in
theorem line_ne_nil (fs : List (List α)) : line d fs ≠ [] := by
  cases fs with
  | nil => exact List.cons_ne_nil _ _
  | cons f fs => cases fs <;> exact List.cons_ne_nil _ _

theorem readAll_of_readRecord {cs r : List α} {fs : List (List α)} (hcs : cs ≠ [])
    (h : readRecord d cs = some (fs, r)) : readAll d cs = (readAll d r).map (fs :: ·) := by
  rw [readAll, dif_neg hcs]
  split
  · next hn => rw [h] at hn; cases hn
  · next fs' r' hs =>
    rw [h] at hs
    obtain ⟨rfl, rfl⟩ := Prod.mk.inj (Option.some.inj hs)
    rfl

/-- **Lines are read back one by one.** -/
theorem readAll_lines {ls : List (List (List α))} (hne : ∀ fs ∈ ls, fs ≠ [])
    (hls : ∀ fs ∈ ls, ∀ f ∈ fs, d.quote ∉ f) : readAll d (ls.flatMap (line d)) = some ls := by
  induction ls with
  | nil => rw [List.flatMap_nil, readAll, dif_pos rfl]
  | cons fs ls ih =>
    have hfs := readRecord_line (hne fs List.mem_cons_self) (hls fs List.mem_cons_self)
      (ls.flatMap (line d))
    have hcs : line d fs ++ ls.flatMap (line d) ≠ [] := by
      intro hnil
      exact line_ne_nil fs (List.append_eq_nil_iff.1 hnil).1
    rw [List.flatMap_cons, readAll_of_readRecord hcs hfs, ih (fun gs hgs => hne gs (List.mem_cons_of_mem _ hgs))
      (fun gs hgs => hls gs (List.mem_cons_of_mem _ hgs))]
    rfl

/-- Only a line without quotes is read back as one record. -/
theorem clean_of_readAll {fs : List (List α)} (h : readAll d (line d fs) = some [fs]) :
    ∀ f ∈ fs, d.quote ∉ f := by
  rw [readAll, dif_neg (line_ne_nil fs)] at h
  split at h
  · cases h
  · next fs' r hs =>
    obtain ⟨x, -, he⟩ := Option.map_eq_some_iff.1 h
    obtain ⟨rfl, -⟩ := List.cons.inj he
    rw [← List.append_nil (line d fs')] at hs
    exact clean_of_readRecord hs

omit [DecidableEq α] in
/-- What stands before a line's end, for a property that quotes and separators do not have. -/
theorem line_body {P : α → Prop} (hq : ¬ P d.quote) (hs : ¬ P d.sep) {fs : List (List α)} (hne : fs ≠ []) :
    ∃ b, line d fs = b ++ [d.eol] ∧ ((∀ c ∈ b, ¬ P c) ↔ ∀ f ∈ fs, ∀ c ∈ f, ¬ P c) := by
  induction fs with
  | nil => exact absurd rfl hne
  | cons f fs ih =>
    cases fs with
    | nil =>
      refine ⟨d.quote :: f ++ [d.quote], by simp [line], ?_⟩
      simp [or_imp, forall_and, hq]
    | cons f' fs =>
      obtain ⟨b, hb, hall⟩ := ih (List.cons_ne_nil _ _)
      refine ⟨d.quote :: f ++ d.quote :: d.sep :: b, by simp [line, hb], ?_⟩
      rw [List.forall_mem_cons, ← hall]
      simp [or_imp, forall_and, hq, hs]

/-- Each field brings two quotes of its own. -/
theorem count_line {fs : List (List α)} (hne : fs ≠ []) :
    (line d fs).count d.quote = 2 * fs.length + (fs.map (List.count d.quote)).sum := by
  have hsep := d.sep_ne_quote
  have heol := d.eol_ne_quote
  induction fs with
  | nil => exact absurd rfl hne
  | cons f fs ih =>
    cases fs with
    | nil =>
      simp [line, heol]
      omega
    | cons f' fs =>
      have hrest := ih (List.cons_ne_nil _ _)
      rw [line, List.cons_append, List.count_cons_self, List.count_append, List.count_cons_self,
        List.count_cons_of_ne hsep, hrest]
      simp only [List.length_cons, List.map_cons, List.sum_cons]
      omega

/-- **A line without quotes in its fields** is no other line of as many fields. -/
theorem line_inj {fs gs : List (List α)} (hne : fs ≠ []) (hlen : gs.length = fs.length)
    (hfs : ∀ f ∈ fs, d.quote ∉ f) (h : line d fs = line d gs) : fs = gs := by
  have hne' : gs ≠ [] := by
    intro hnil
    rw [hnil] at hlen
    exact hne (List.length_eq_zero_iff.1 hlen.symm)
  have hcount := congrArg (List.count d.quote) h
  have hzero : (fs.map (List.count d.quote)).sum = 0 := by
    rw [List.sum_eq_zero_iff]
    intro n hn
    obtain ⟨f, hf, rfl⟩ := List.mem_map.1 hn
    exact List.count_eq_zero.2 (hfs f hf)
  rw [count_line hne, count_line hne', hlen, hzero] at hcount
  have hsum : (gs.map (List.count d.quote)).sum = 0 := by omega
  have hgs : ∀ g ∈ gs, d.quote ∉ g := by
    intro g hg
    rw [List.sum_eq_zero_iff] at hsum
    exact List.count_eq_zero.1 (hsum _ (List.mem_map_of_mem hg))
  have hread := readRecord_line hne hfs []
  rw [h, readRecord_line hne' hgs] at hread
  exact (Prod.mk.inj (Option.some.inj hread)).1.symm

end Csv

end Lib
