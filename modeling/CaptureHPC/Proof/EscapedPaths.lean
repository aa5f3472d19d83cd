import CaptureHPC.Spec.BoostRegex
import CaptureHPC.Spec.Exclusions

/-!
# What an escaped path matches

* `prepare_eq`: the two loops escape the backslashes and the dots, each once.
* `literal_matches`, `consumes_char`, `atoms_le`: what a reading of a pattern matches, consumes and counts.
* `escaped_iff`: an escaped path matches only itself exactly if it has no other special character.
-/

namespace CaptureHPC

open Lib Cpp Boost RegexToken

/-! ## The two loops -/

theorem flatMap_absent {c : WChar} {s : WString} (replacement : WString) (h : c ∉ s) :
    (s.flatMap fun d => if d = c then replacement else [d]) = s := by
  induction s with
  | nil => rfl
  | cons d s ih =>
    rw [List.mem_cons, not_or] at h
    rw [List.flatMap_cons, if_neg (Ne.symm h.1), ih h.2, List.singleton_append]

/-- **A loop replaces every character behind its offset, once.** -/
theorem replaceAll_eq (c : WChar) (replacement pre s : WString) {fuel : ℕ} (hfuel : s.count c < fuel) :
    Monitor.replaceAll c replacement fuel (pre ++ s) pre.length =
      some (pre ++ s.flatMap fun d => if d = c then replacement else [d]) := by
  induction fuel generalizing pre s with
  | zero => cases hfuel
  | succ fuel ih =>
    rw [Monitor.replaceAll]
    by_cases hc : c ∈ s
    · obtain ⟨as, bs, rfl, has⟩ := List.eq_append_cons_of_mem hc
      rw [find_behind pre has, if_pos (by rw [npos]; omega)]
      have hreplace : replace (pre ++ (as ++ c :: bs)) ((pre ++ as).length : ℤ).toNat 1 replacement =
          (pre ++ as ++ replacement) ++ bs := by
        have hone : (pre ++ as).length + 1 = (pre ++ as ++ [c]).length := by
          rw [List.length_append, List.length_append, List.length_append, List.length_singleton]
        have hcons : pre ++ (as ++ c :: bs) = pre ++ as ++ [c] ++ bs := by simp
        rw [replace, Int.toNat_natCast, hone, hcons, List.drop_left, List.append_assoc (pre ++ as) [c],
          List.take_left]
      have hoffset : ((pre ++ as).length : ℤ) + replacement.length = ((pre ++ as ++ replacement).length : ℕ) := by
        push_cast [List.length_append]
        ring
      have hless : bs.count c < fuel := by
        rw [List.count_append, List.count_cons_self] at hfuel
        omega
      have hkept := flatMap_absent replacement has
      rw [hreplace, hoffset, ih _ _ hless, List.flatMap_append, hkept, List.flatMap_cons, if_pos rfl]
      simp
    · have hkept := flatMap_absent replacement hc
      rw [find_absent pre hc, if_neg (not_not.2 rfl), hkept]

/-- What is made of a character. -/
def tokenOf (c : WChar) : RegexToken :=
  if c = backslash ∨ c = dot then .escaped c else if c ∈ special then .operator c else .ordinary c

def tokensOf (s : WString) : List RegexToken := s.map tokenOf

theorem tokenOf_text (c : WChar) : (tokenOf c).text =
    (if c = backslash then lit "\\\\" else [c]).flatMap fun d => if d = dot then lit "\\." else [d] := by
  by_cases hbackslash : c = backslash
  · subst hbackslash
    decide
  · by_cases hdot : c = dot
    · subst hdot
      decide
    · rw [tokenOf, if_neg (not_or.2 ⟨hbackslash, hdot⟩), if_neg hbackslash, List.flatMap_singleton, if_neg hdot]
      by_cases hspecial : c ∈ special
      · rw [if_pos hspecial]
        rfl
      · rw [if_neg hspecial]
        rfl

/-- **Backslashes and dots are escaped, and nothing else.** -/
theorem prepare_eq (s : WString) : Monitor.prepareStringForExclusion s = some (patternOf (tokensOf s)) := by
  have hfirst := replaceAll_eq backslash (lit "\\\\") [] s (Nat.lt_succ_of_le List.count_le_length)
  rw [List.nil_append, List.nil_append] at hfirst
  have hsecond := replaceAll_eq dot (lit "\\.") [] (s.flatMap fun d => if d = backslash then lit "\\\\" else [d])
    (Nat.lt_succ_of_le List.count_le_length)
  rw [List.nil_append, List.nil_append] at hsecond
  unfold Monitor.prepareStringForExclusion
  simp only [List.length_nil, Nat.cast_zero] at hfirst hsecond
  rw [hfirst]
  show Monitor.replaceAll dot _ _ _ 0 = _
  rw [hsecond, List.flatMap_assoc, patternOf, tokensOf, List.flatMap_map]
  refine congrArg some (List.flatMap_congr fun c _ => ?_)
  exact (tokenOf_text c).symm

/-! ## Readings of a pattern -/

variable {translate : WChar → WChar} {newline : WChar → Prop} {ts : List RegexToken} {r : Regex WChar} {c : WChar}

/-- **A pattern without operators matches its characters.** -/
theorem literal_matches (h : Denotes translate ts r) (hliteral : ∀ t ∈ ts, t.isOperator = false)
    (before text after : WString) :
    r.Matches newline before text after ↔ text.map translate = (ts.map char).map translate := by
  induction h generalizing before text after with
  | empty =>
    constructor
    · intro h
      cases h
      rfl
    · intro h
      rw [List.map_nil, List.map_nil, List.map_eq_nil_iff] at h
      exact h ▸ .empty
  | ordinary c =>
    constructor
    · intro h
      cases h with
      | sat h => simp [char, h]
    · intro h
      obtain ⟨d, rfl, hd⟩ := List.map_eq_singleton_iff.1 h
      exact .sat hd
  | escaped c =>
    constructor
    · intro h
      cases h with
      | sat h => simp [char, h]
    · intro h
      obtain ⟨d, rfl, hd⟩ := List.map_eq_singleton_iff.1 h
      exact .sat hd
  | start => exact absurd (hliteral _ List.mem_cons_self) (by decide)
  | finish => exact absurd (hliteral _ List.mem_cons_self) (by decide)
  | group => exact absurd (hliteral _ List.mem_cons_self) (by decide)
  | bracket => exact absurd (hliteral _ List.mem_cons_self) (by decide)
  | plus => exact absurd (hliteral (.operator plusSign) (by simp)) (by decide)
  | cat _ _ ihr ihs =>
    rw [List.forall_mem_append] at hliteral
    rw [List.map_append, List.map_append]
    constructor
    · intro h
      cases h with
      | cat hr hs =>
        rw [List.map_append, (ihr hliteral.1 _ _ _).1 hr, (ihs hliteral.2 _ _ _).1 hs]
    · intro h
      obtain ⟨t, u, rfl, ht, hu⟩ := List.map_eq_append_iff.1 h
      exact .cat ((ihr hliteral.1 _ _ _).2 ht) ((ihs hliteral.2 _ _ _).2 hu)

/-- **Without brackets a pattern consumes only the characters that its tokens stand for.** -/
theorem consumes_char (h : Denotes translate ts r) (hbracket : .operator 0x5B ∉ ts) (hc : r.Consumes c) :
    ∃ t ∈ ts, t.isOperator = false ∧ translate c = translate t.char := by
  induction h with
  | empty => exact hc.elim
  | ordinary d => exact ⟨.ordinary d, List.mem_cons_self, rfl, hc⟩
  | escaped d => exact ⟨.escaped d, List.mem_cons_self, rfl, hc⟩
  | start => exact hc.elim
  | finish => exact hc.elim
  | @group us s _ ih =>
    have hinside : .operator 0x5B ∉ us := fun h => hbracket (by simp [h])
    obtain ⟨t, ht, hliteral, hsame⟩ := ih hinside hc
    exact ⟨t, by simp [ht], hliteral, hsame⟩
  | bracket => exact absurd List.mem_cons_self hbracket
  | @plus us s _ ih =>
    have hinside : .operator 0x5B ∉ us := fun h => hbracket (by simp [h])
    obtain ⟨t, ht, hliteral, hsame⟩ := ih hinside hc
    exact ⟨t, by simp [ht], hliteral, hsame⟩
  | cat _ _ ihr ihs =>
    rw [List.mem_append, not_or] at hbracket
    rcases hc with hc | hc
    · obtain ⟨t, ht, hliteral, hsame⟩ := ihr hbracket.1 hc
      exact ⟨t, List.mem_append_left _ ht, hliteral, hsame⟩
    · obtain ⟨t, ht, hliteral, hsame⟩ := ihs hbracket.2 hc
      exact ⟨t, List.mem_append_right _ ht, hliteral, hsame⟩

/-- **Operators are not consumed**, when each repeat is done once. -/
theorem atoms_le (h : Denotes translate ts r) : r.atoms + ts.countP isOperator ≤ ts.length := by
  induction h with
  | empty => exact le_rfl
  | ordinary => exact le_rfl
  | escaped => exact le_rfl
  | start => exact le_rfl
  | finish => exact le_rfl
  | group _ ih =>
    simp only [List.countP_cons, List.countP_append, List.countP_nil, isOperator, List.length_cons, List.length_append,
      List.length_nil, if_true]
    omega
  | @bracket us p _ =>
    have hle := List.countP_le_length (p := isOperator) (l := us)
    simp only [Regex.atoms, List.countP_cons, List.countP_append, List.countP_nil, isOperator, List.length_cons,
      List.length_append, List.length_nil, if_true, Bool.false_eq_true, if_false]
    omega
  | plus _ ih =>
    simp only [Regex.atoms, List.countP_cons, List.countP_append, List.countP_nil, isOperator, List.length_cons,
      List.length_append, List.length_nil, if_true]
    omega
  | cat _ _ ihr ihs =>
    rw [Regex.atoms, List.countP_append, List.length_append]
    omega

/-! ## Paths -/

variable {e : RegexLibrary} {s : WString}

/-- There is no character that a path cannot have. -/
def WindowsPath (s : WString) : Prop := ∀ c ∈ s, c ∉ lit "*?|<>\""

/-- The path has no brace. -/
def Braceless (s : WString) : Prop := ∀ c ∈ s, c ∉ lit "\x7b\x7d"

/-- The path has no special characters but backslashes and dots. -/
def PlainPath (s : WString) : Prop := ∀ c ∈ s, c ∉ lit "[()\x7b\x7d+^$"

instance (s : WString) : Decidable (WindowsPath s) := List.decidableBAll _ s

instance (s : WString) : Decidable (PlainPath s) := List.decidableBAll _ s

/-- The escaped path is a regular expression that matches the path and, ignoring case, nothing else. -/
def OnlyItself (e : RegexLibrary) (s : WString) : Prop :=
  ∃ p, Monitor.prepareStringForExclusion s = some p ∧ e.valid p = true ∧
    ∀ t, e.regexMatch p t = true ↔ t.map e.translate = s.map e.translate

theorem special_cases (h : c ∈ special) : c = backslash ∨ c = dot ∨ c ∈ lit "*?|<>\"" ∨ c ∈ lit "\x7b\x7d" ∨
    c ∈ operators := by
  have hall : special.all (fun c => c = backslash ∨ c = dot ∨ c ∈ lit "*?|<>\"" ∨ c ∈ lit "\x7b\x7d" ∨
      c ∈ operators) = true := by decide
  exact of_decide_eq_true (List.all_eq_true.1 hall c h)

theorem char_tokenOf (c : WChar) : (tokenOf c).char = c := by
  unfold tokenOf
  split_ifs <;> rfl

theorem tokenOf_operator (h : c ∈ operators) : tokenOf c = .operator c := by
  have hall : operators.all (fun c => tokenOf c = .operator c) = true := by decide
  exact of_decide_eq_true (List.all_eq_true.1 hall c h)

theorem isOperator_tokenOf (h : (tokenOf c).isOperator = true) : c ∈ special ∧ c ≠ backslash ∧ c ≠ dot := by
  unfold tokenOf at h
  split_ifs at h with hescaped hspecial
  · cases h
  · exact ⟨hspecial, (not_or.1 hescaped).1, (not_or.1 hescaped).2⟩
  · cases h

/-- The tokens of a path without braces are documented. -/
theorem wellFormed_tokensOf (hpath : WindowsPath s) (hbraceless : Braceless s) : ∀ t ∈ tokensOf s, t.WellFormed := by
  intro t ht
  obtain ⟨c, hc, rfl⟩ := List.mem_map.1 ht
  unfold tokenOf
  split_ifs with hescaped hspecial
  · rcases hescaped with rfl | rfl
    · show backslash ∈ special
      decide
    · show dot ∈ special
      decide
  · rcases special_cases hspecial with h | h | h | h | h
    · exact absurd (.inl h) hescaped
    · exact absurd (.inr h) hescaped
    · exact absurd h (hpath c hc)
    · exact absurd h (hbraceless c hc)
    · exact h
  · exact hspecial

/-- An operator among the tokens is a special character of the path. -/
theorem operator_mem (hpath : WindowsPath s) (hbraceless : Braceless s) {t : RegexToken} (ht : t ∈ tokensOf s)
    (hoperator : t.isOperator = true) : ∃ c ∈ s, c ∈ operators := by
  obtain ⟨c, hc, rfl⟩ := List.mem_map.1 ht
  obtain ⟨hspecial, hbackslash, hdot⟩ := isOperator_tokenOf hoperator
  rcases special_cases hspecial with h | h | h | h | h
  · exact absurd h hbackslash
  · exact absurd h hdot
  · exact absurd h (hpath c hc)
  · exact absurd h (hbraceless c hc)
  · exact ⟨c, hc, h⟩

theorem map_char_tokensOf (s : WString) : (tokensOf s).map char = s := by
  rw [tokensOf, List.map_map]
  exact (List.map_congr_left fun c _ => char_tokenOf c).trans (List.map_id s)

theorem plain_iff (hbraceless : Braceless s) : PlainPath s ↔ ∀ c ∈ s, c ∉ operators := by
  have hsplit : ∀ c, c ∈ lit "[()\x7b\x7d+^$" ↔ c ∈ operators ∨ c ∈ lit "\x7b\x7d" := by
    intro c
    have hlit : lit "[()\x7b\x7d+^$" = [0x5B, 0x28, 0x29, 0x7B, 0x7D, 0x2B, 0x5E, 0x24] := by decide
    have hoperators : operators = [0x5B, 0x28, 0x29, 0x2B, 0x5E, 0x24] := by decide
    have hbraces : lit "\x7b\x7d" = [0x7B, 0x7D] := by decide
    rw [hlit, hoperators, hbraces]
    simp only [List.mem_cons, List.not_mem_nil, or_false]
    tauto
  constructor
  · intro h c hc hop
    exact h c hc ((hsplit c).2 (.inl hop))
  · intro h c hc hlit
    exact ((hsplit c).1 hlit).elim (h c hc) (hbraceless c hc)

theorem PlainPath.braceless (h : PlainPath s) : Braceless s := by
  intro c hc hbrace
  have hall : (lit "\x7b\x7d").all (fun c => c ∈ lit "[()\x7b\x7d+^$") = true := by decide
  exact h c hc (of_decide_eq_true (List.all_eq_true.1 hall c hbrace))

/-- **A plain path matches only itself.** -/
theorem onlyItself_of_plain (he : e.Documented) (hpath : WindowsPath s) (hplain : PlainPath s) : OnlyItself e s := by
  have hwell := wellFormed_tokensOf hpath hplain.braceless
  have hliteral : ∀ t ∈ tokensOf s, t.isOperator = false := by
    intro t ht
    by_contra hoperator
    obtain ⟨c, hc, hop⟩ := operator_mem hpath hplain.braceless ht (by simpa using hoperator)
    exact (plain_iff hplain.braceless).1 hplain c hc hop
  have hvalid := he.literal _ hwell hliteral
  obtain ⟨r, hr, hsound, hcomplete⟩ := he.denotes _ hwell hvalid
  have hmatches : ∀ t after, r.Matches (e.newline ·) [] t after ↔ _ := literal_matches hr hliteral []
  rw [map_char_tokensOf] at hmatches
  -- without operators there are neither repeats nor anchors
  have hnone : ∀ o, .operator o ∉ tokensOf s := by
    intro o ho
    cases hliteral _ ho
  refine ⟨_, prepare_eq s, hvalid, fun t => ⟨fun h => (hmatches t []).1 (hsound t h), fun h => ?_⟩⟩
  refine hcomplete (fun hplus => ?_) t (fun hanchored => ?_) ((hmatches t []).2 h)
  · exact hnone _ (hplus.subset List.mem_cons_self)
  · exact absurd hanchored (not_or.2 ⟨hnone _, hnone _⟩)

theorem bracket_notMem (h : (0x5B : WChar) ∉ s) : .operator 0x5B ∉ tokensOf s := by
  intro hmem
  obtain ⟨c, hc, hop⟩ := List.mem_map.1 hmem
  have hchar := char_tokenOf c
  rw [hop] at hchar
  have hsame : (0x5B : WChar) = c := hchar
  exact h (hsame ▸ hc)

/-- **A special character is not matched by a path without brackets.** -/
theorem plain_of_noBracket (he : e.Documented) (hpath : WindowsPath s) (hbraceless : Braceless s)
    (hbracket : (0x5B : WChar) ∉ s) (h : OnlyItself e s) : PlainPath s := by
  obtain ⟨p, hp, hvalid, hself⟩ := h
  obtain rfl : patternOf (tokensOf s) = p := Option.some.inj ((prepare_eq s).symm.trans hp)
  obtain ⟨r, hr, hsound, -⟩ := he.denotes _ (wellFormed_tokensOf hpath hbraceless) hvalid
  have hmatch := hsound s ((hself s).2 rfl)
  refine (plain_iff hbraceless).2 fun c hc hop => ?_
  obtain ⟨t, ht, hliteral, hsame⟩ := consumes_char hr (bracket_notMem hbracket) (hmatch.consumes c hc)
  obtain ⟨d, -, rfl⟩ := List.mem_map.1 ht
  rw [char_tokenOf] at hsame
  obtain rfl := he.caseless d c hop hsame.symm
  rw [tokenOf_operator hop] at hliteral
  cases hliteral

theorem plus_infix (h : [.operator plusSign, .operator plusSign] <:+: tokensOf s) : [plusSign, plusSign] <:+: s := by
  obtain ⟨before, after, hsplit⟩ := h
  have hchar := congrArg (List.map char) hsplit
  rw [map_char_tokensOf, List.map_append, List.map_append] at hchar
  exact ⟨before.map char, after.map char, hchar⟩

/-- **A path with a special character is longer than what it matches**, when its repeats can be done once. -/
theorem plain_of_line (he : e.Documented) (hpath : WindowsPath s) (hbraceless : Braceless s)
    (hplus : ¬[plusSign, plusSign] <:+: s) (hline : ∀ c ∈ s, e.newline c = false) (h : OnlyItself e s) : PlainPath s := by
  obtain ⟨p, hp, hvalid, hself⟩ := h
  obtain rfl : patternOf (tokensOf s) = p := Option.some.inj ((prepare_eq s).symm.trans hp)
  obtain ⟨r, hr, hsound, hcomplete⟩ := he.denotes _ (wellFormed_tokensOf hpath hbraceless) hvalid
  have hmatch := hsound s ((hself s).2 rfl)
  obtain ⟨t, hlength, hsub, hshort⟩ := hmatch.shorten (by simpa using hline)
  have ht := hcomplete (mt plus_infix hplus) t (fun _ c hc => hline c (hsub.subset hc))
    (hshort [] [] (fun h => h) fun h => h)
  have hsame := congrArg List.length ((hself t).1 ht)
  rw [List.length_map, List.length_map] at hsame
  have hatoms := atoms_le hr
  rw [tokensOf, List.length_map] at hatoms
  have hnone : (tokensOf s).countP isOperator = 0 := by
    rw [tokensOf]
    omega
  refine (plain_iff hbraceless).2 fun c hc hop => ?_
  have hoperator := List.countP_eq_zero.1 hnone (tokenOf c) (List.mem_map_of_mem hc)
  rw [tokenOf_operator hop] at hoperator
  exact hoperator rfl

/-- **An escaped path matches only itself exactly if it has no special characters but backslashes and dots.** That it is
enough holds of every path. That it is needed is shown for those without braces, and if there are brackets, for those
without two plus signs in a row and newlines. -/
theorem escaped_iff (e : RegexLibrary) (he : e.Documented) (s : WString) (hpath : WindowsPath s) :
    (PlainPath s → OnlyItself e s) ∧
    (Braceless s → (0x5B ∉ s ∨ ¬[plusSign, plusSign] <:+: s ∧ ∀ c ∈ s, e.newline c = false) →
      (OnlyItself e s ↔ PlainPath s)) := by
  refine ⟨onlyItself_of_plain he hpath, fun hbraceless hshape => ⟨fun h => ?_, onlyItself_of_plain he hpath⟩⟩
  rcases hshape with hbracket | ⟨hplus, hline⟩
  · exact plain_of_noBracket he hpath hbraceless hbracket h
  · exact plain_of_line he hpath hbraceless hplus hline h

/-! ## Two libraries -/

/-- The characters of a pattern of characters and escapes. -/
def unescape : WString → Option WString
  | [] => some []
  | [c] => if c ∈ special then none else some [c]
  | c :: d :: rest =>
    if c = backslash then if d ∈ special then (unescape rest).map (d :: ·) else none
    else if c ∈ special then none else (unescape (d :: rest)).map (c :: ·)

def lower (c : WChar) : WChar := if 0x41 ≤ c ∧ c ≤ 0x5A then c + 0x20 else c

/-- Only patterns of characters and escapes are accepted. -/
def literals : RegexLibrary where
  valid p := (unescape p).isSome
  regexMatch p t := (unescape p).any fun u => t.map lower = u.map lower
  translate := lower
  newline c := c = 0x0A

/-- Groups are accepted, too. -/
def groups : RegexLibrary :=
  { literals with
    valid := fun p => literals.valid (p.filter (· ∉ lit "()"))
    regexMatch := fun p t => literals.regexMatch (p.filter (· ∉ lit "()")) t }

theorem lower_caseless (c o : WChar) (ho : o ∈ operators) (h : lower c = lower o) : c = o := by
  have hall : operators.all (fun o => lower o = o ∧ ¬(0x61 ≤ o ∧ o ≤ 0x7A)) = true := by decide
  obtain ⟨hsame, hletter⟩ := of_decide_eq_true (List.all_eq_true.1 hall o ho)
  rw [hsame, lower] at h
  by_cases hupper : 0x41 ≤ c ∧ c ≤ 0x5A
  · rw [if_pos hupper] at h
    subst h
    refine absurd ?_ hletter
    rw [UInt16.le_iff_toNat_le, UInt16.le_iff_toNat_le] at hupper ⊢
    rw [UInt16.toNat_add]
    have h41 : (0x41 : UInt16).toNat = 65 := rfl
    have h5A : (0x5A : UInt16).toNat = 90 := rfl
    have h61 : (0x61 : UInt16).toNat = 97 := rfl
    have h7A : (0x7A : UInt16).toNat = 122 := rfl
    have h20 : (0x20 : UInt16).toNat = 32 := rfl
    omega
  · rwa [if_neg hupper] at h

theorem unescape_ordinary (hc : c ∉ special) (p : WString) : unescape (c :: p) = (unescape p).map (c :: ·) := by
  have hne : c ≠ backslash := fun h => hc (by rw [h]; decide)
  cases p with
  | nil =>
    rw [unescape, Option.map_some]
    exact if_neg hc
  | cons d p => rw [unescape, if_neg hne, if_neg hc]

theorem unescape_operator (hc : c ∈ operators) (p : WString) : unescape (c :: p) = none := by
  have hall : operators.all (fun c => c ∈ special ∧ c ≠ backslash) = true := by decide
  obtain ⟨hspecial, hne⟩ := of_decide_eq_true (List.all_eq_true.1 hall c hc)
  cases p with
  | nil => rw [unescape, if_pos hspecial]
  | cons d p => rw [unescape, if_neg hne, if_pos hspecial]

theorem unescape_patternOf (h : ∀ t ∈ ts, t.WellFormed) :
    unescape (patternOf ts) = if ts.any isOperator then none else some (ts.map char) := by
  induction ts with
  | nil => rfl
  | cons t ts ih =>
    rw [List.forall_mem_cons] at h
    rw [patternOf, List.flatMap_cons]
    cases t with
    | ordinary c =>
      show unescape (c :: patternOf ts) = _
      rw [unescape_ordinary h.1, ih h.2]
      by_cases hany : ts.any isOperator = true <;> simp [hany, isOperator, char]
    | escaped c =>
      show unescape (backslash :: c :: patternOf ts) = _
      have hspecial : c ∈ special := h.1
      rw [unescape, if_pos rfl, if_pos hspecial, ih h.2]
      by_cases hany : ts.any isOperator = true <;> simp [hany, isOperator, char]
    | operator c =>
      show unescape (c :: patternOf ts) = _
      rw [unescape_operator h.1]
      simp [isOperator]

theorem exists_reading (translate : WChar → WChar) (h : ∀ t ∈ ts, t.isOperator = false) : ∃ r, Denotes translate ts r := by
  induction ts with
  | nil => exact ⟨_, .empty⟩
  | cons t ts ih =>
    rw [List.forall_mem_cons] at h
    obtain ⟨r, hr⟩ := ih h.2
    cases t with
    | ordinary c => exact ⟨_, (Denotes.ordinary c).cat hr⟩
    | escaped c => exact ⟨_, (Denotes.escaped c).cat hr⟩
    | operator c => cases h.1

theorem literals_documented : literals.Documented where
  caseless := lower_caseless
  literal ts hwell hliteral := by
    have hnone : ts.any isOperator = false := by
      rw [List.any_eq_false]
      intro t ht
      rw [hliteral t ht]
      decide
    show (unescape (patternOf ts)).isSome = true
    rw [unescape_patternOf hwell, hnone]
    rfl
  denotes ts hwell hvalid := by
    have hvalid' : (unescape (patternOf ts)).isSome = true := hvalid
    rw [unescape_patternOf hwell] at hvalid'
    have hnone : ts.any isOperator = false := by
      by_contra hsome
      rw [Bool.not_eq_false] at hsome
      rw [hsome] at hvalid'
      cases hvalid'
    have hliteral : ∀ t ∈ ts, t.isOperator = false := by
      intro t ht
      simpa using List.any_eq_false.1 hnone t ht
    obtain ⟨r, hr⟩ := exists_reading lower hliteral
    have hmatch : ∀ t, literals.regexMatch (patternOf ts) t = true ↔ r.Matches (literals.newline ·) [] t [] := by
      intro t
      rw [literal_matches hr hliteral]
      show (unescape (patternOf ts)).any _ = true ↔ _
      rw [unescape_patternOf hwell, hnone]
      simp
    exact ⟨r, hr, fun t => (hmatch t).1, fun _ t _ => (hmatch t).2⟩

theorem logFile_itself : OnlyItself literals (lit "C:\\logs\\a.exe") :=
  (escaped_iff literals literals_documented (lit "C:\\logs\\a.exe") (by decide)).1 (by decide)

/-- The parentheses of a path are taken for those of a group. -/
theorem programFiles_unmatched : ¬OnlyItself groups (lit "C:\\Program Files (x86)\\logs") := by
  rintro ⟨p, hp, -, hself⟩
  have hfalse : (Monitor.prepareStringForExclusion (lit "C:\\Program Files (x86)\\logs")).any
      (fun p => groups.regexMatch p (lit "C:\\Program Files (x86)\\logs")) = false := by decide
  rw [hp, Option.any_some, (hself _).2 rfl] at hfalse
  cases hfalse

end CaptureHPC
