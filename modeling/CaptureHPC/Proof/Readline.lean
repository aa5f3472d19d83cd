import CaptureHPC.Lib.Split
import CaptureHPC.Spec.Readline

/-!
# When the reader's lines are those of the stream

* `myReadline_line`, `myReadline_unfinished`: a call takes the characters up to a newline, or those that are left.
* `call_eq`: without empty lines, successive calls return the lines in order.
* `run_total`: the loop of `run` ends.
* `run_end_iff`: nothing is left then exactly if nothing ends the loop before (`Undisturbed`).
* `call_lines_iff`: calls and loop together.
-/

namespace CaptureHPC.BufferedReader

open Lib

variable {r : BufferedReader} {fails : Bool} {seg rest chars : List Char}

/-! ## Lines -/

/-- The segments that a newline ends. -/
def completeLines (chars : List Char) : List (List Char) := (split ['\n'] chars).dropLast

/-- What stands behind the last newline. -/
def unfinishedLine (chars : List Char) : List Char := (split ['\n'] chars).getLastD []

theorem not_infix_newline (h : '\n' ∉ seg) : ¬['\n'] <:+: seg := by
  rwa [List.singleton_infix_iff]

theorem split_line (h : '\n' ∉ seg) (rest : List Char) :
    split ['\n'] (seg ++ '\n' :: rest) = seg :: split ['\n'] rest := by
  have hseg : ¬['\n'] <:+: seg ++ ['\n'].dropLast := by
    rw [List.dropLast_singleton, List.append_nil]
    exact not_infix_newline h
  exact split_append (List.cons_ne_nil _ _) hseg rest

theorem split_ne_nil (chars : List Char) : split ['\n'] chars ≠ [] := by
  obtain ⟨part, parts, h, -⟩ := split_eq_cons (List.cons_ne_nil '\n' []) chars
  rw [h]
  exact List.cons_ne_nil _ _

theorem completeLines_line (h : '\n' ∉ seg) (rest : List Char) :
    completeLines (seg ++ '\n' :: rest) = seg :: completeLines rest := by
  rw [completeLines, split_line h, List.dropLast_cons_of_ne_nil (split_ne_nil rest)]
  rfl

theorem unfinishedLine_line (h : '\n' ∉ seg) (rest : List Char) :
    unfinishedLine (seg ++ '\n' :: rest) = unfinishedLine rest := by
  rw [unfinishedLine, split_line h, unfinishedLine]
  cases hsplit : split ['\n'] rest with
  | nil => exact absurd hsplit (split_ne_nil rest)
  | cons part parts => rfl

theorem completeLines_unfinished (h : '\n' ∉ seg) : completeLines seg = [] := by
  rw [completeLines, split_of_not_infix (not_infix_newline h)]
  rfl

theorem unfinishedLine_unfinished (h : '\n' ∉ seg) : unfinishedLine seg = seg := by
  rw [unfinishedLine, split_of_not_infix (not_infix_newline h)]
  rfl

/-- A stream begins with a line, or it has no newline. -/
theorem lines_induction {P : List Char → Prop} (unfinished : ∀ seg, '\n' ∉ seg → P seg)
    (line : ∀ seg rest, '\n' ∉ seg → P rest → P (seg ++ '\n' :: rest)) (chars : List Char) : P chars := by
  induction hn : chars.length using Nat.strong_induction_on generalizing chars with
  | _ n ih =>
    by_cases h : '\n' ∈ chars
    · obtain ⟨seg, rest, rfl, hseg⟩ := List.eq_append_cons_of_mem h
      refine line seg rest hseg (ih rest.length ?_ rest rfl)
      rw [← hn, List.length_append, List.length_cons]
      omega
    · exact unfinished chars h

/-- No line is empty: the stream does not begin with a newline, and no newline follows another one. -/
def NoEmptyLine (chars : List Char) : Prop := chars.head? ≠ some '\n' ∧ ¬['\n', '\n'] <:+: chars

instance : DecidablePred NoEmptyLine := fun _ => inferInstanceAs (Decidable (_ ∧ _))

theorem noEmptyLine_unfinished (h : '\n' ∉ seg) : NoEmptyLine seg := by
  constructor
  · intro hhead
    exact h (List.mem_of_mem_head? hhead)
  · intro htwice
    exact h (htwice.subset List.mem_cons_self)

theorem newlines_infix_line (h : '\n' ∉ seg) (rest : List Char) :
    ['\n', '\n'] <:+: seg ++ '\n' :: rest ↔ rest.head? = some '\n' ∨ ['\n', '\n'] <:+: rest := by
  induction seg with
  | nil =>
    rw [List.nil_append, List.infix_cons_iff, List.cons_prefix_cons]
    refine or_congr_left ?_
    cases rest with
    | nil => simp
    | cons c rest =>
      rw [List.cons_prefix_cons, List.head?_cons, Option.some.injEq]
      exact ⟨fun h => h.2.1.symm, fun h => ⟨rfl, h.symm, List.nil_prefix⟩⟩
  | cons c seg ih =>
    rw [List.mem_cons, not_or] at h
    rw [List.cons_append, List.infix_cons_iff, List.cons_prefix_cons, ih h.2]
    exact or_iff_right fun hprefix => h.1 hprefix.1

theorem noEmptyLine_line (h : '\n' ∉ seg) : NoEmptyLine (seg ++ '\n' :: rest) ↔ seg ≠ [] ∧ NoEmptyLine rest := by
  unfold NoEmptyLine
  rw [newlines_infix_line h, not_or]
  refine and_congr_left fun _ => ?_
  cases seg with
  | nil => simp
  | cons c seg =>
    rw [List.mem_cons, not_or] at h
    simp [Ne.symm h.1]

/-! ## Calls -/

theorem readlineFrom_line (h : '\n' ∉ seg) (val : Option (List Char)) (rest : List Char) :
    readlineFrom fails val (seg ++ '\n' :: rest) = (if seg = [] then val else some (val.getD [] ++ seg), rest) := by
  induction seg generalizing val with
  | nil => rfl
  | cons c seg ih =>
    rw [List.mem_cons, not_or] at h
    rw [List.cons_append, readlineFrom, if_neg (Ne.symm h.1), ih h.2]
    by_cases hseg : seg = [] <;> simp [hseg]

theorem readlineFrom_unfinished (h : '\n' ∉ seg) (val : Option (List Char)) :
    readlineFrom fails val seg =
      (if fails then some disconnected else if seg = [] then val else some (val.getD [] ++ seg), []) := by
  induction seg generalizing val with
  | nil => rfl
  | cons c seg ih =>
    rw [List.mem_cons, not_or] at h
    rw [readlineFrom, if_neg (Ne.symm h.1), ih h.2]
    by_cases hseg : seg = [] <;> simp [hseg]

/-- **A line**: the characters up to its newline, and null if there are none. -/
theorem myReadline_line (h : '\n' ∉ seg) (rest : List Char) :
    myReadline ⟨seg ++ '\n' :: rest, fails⟩ = (if seg = [] then none else some seg, ⟨rest, fails⟩) := by
  unfold myReadline
  rw [readlineFrom_line h]
  rfl

/-- **Without a newline**: the characters that are left, and null if there are none. -/
theorem myReadline_unfinished (h : '\n' ∉ seg) :
    myReadline ⟨seg, fails⟩ =
      (if fails then some disconnected else if seg = [] then none else some seg, ⟨[], fails⟩) := by
  unfold myReadline
  rw [readlineFrom_unfinished h]
  rfl

/-- The loop computes what a reader without exceptions is elsewhere said to return. -/
theorem myReadline_eq (chars : List Char) :
    myReadline ⟨chars, false⟩ = ((CaptureHPC.myReadline chars).1, ⟨(CaptureHPC.myReadline chars).2, false⟩) := by
  unfold CaptureHPC.myReadline
  by_cases h : '\n' ∈ chars
  · obtain ⟨seg, rest, rfl, hseg⟩ := List.eq_append_cons_of_mem h
    have hall : ∀ c ∈ seg, decide (c ≠ '\n') = true := by
      intro c hc
      exact decide_eq_true fun hnewline => hseg (hnewline ▸ hc)
    rw [myReadline_line hseg, List.takeWhile_append_of_pos hall, List.dropWhile_append_of_pos hall]
    simp
  · have hall : ∀ c ∈ chars, decide (c ≠ '\n') = true := by
      intro c hc
      exact decide_eq_true fun hnewline => h (hnewline ▸ hc)
    rw [myReadline_unfinished h, List.takeWhile_eq_self_iff.2 hall, List.dropWhile_eq_nil_iff.2 hall]
    rfl

/-! ## Successive calls -/

/-- What the call behind `n` other calls returns. -/
def call : ℕ → BufferedReader → Option (List Char)
  | 0, r => r.myReadline.1
  | n + 1, r => call n r.myReadline.2

/-- The lines of the stream. The last one may be without a newline, unless the reader fails there. -/
def lines (r : BufferedReader) : List (List Char) :=
  completeLines r.chars ++ if r.fails ∨ unfinishedLine r.chars = [] then [] else [unfinishedLine r.chars]

/-- What is returned at the end of the stream. -/
def atEnd (r : BufferedReader) : Option (List Char) := if r.fails then some disconnected else none

theorem lines_line (h : '\n' ∉ seg) (rest : List Char) :
    lines ⟨seg ++ '\n' :: rest, fails⟩ = seg :: lines ⟨rest, fails⟩ := by
  unfold lines
  rw [completeLines_line h, unfinishedLine_line h]
  rfl

theorem lines_unfinished (h : '\n' ∉ seg) :
    lines ⟨seg, fails⟩ = if fails ∨ seg = [] then [] else [seg] := by
  unfold lines
  rw [completeLines_unfinished h, unfinishedLine_unfinished h]
  rfl

theorem myReadline_end : myReadline ⟨[], fails⟩ = (atEnd ⟨[], fails⟩, ⟨[], fails⟩) := rfl

theorem call_end (n : ℕ) : call n ⟨[], fails⟩ = atEnd ⟨[], fails⟩ := by
  induction n with
  | zero => rfl
  | succ n ih =>
    rw [call, myReadline_end]
    exact ih

/-- **Without empty lines, successive calls return the lines in order**, and then the end. -/
theorem call_eq (fails : Bool) (chars : List Char) (h : NoEmptyLine chars) (n : ℕ) :
    call n ⟨chars, fails⟩ = ((lines ⟨chars, fails⟩)[n]?).or (atEnd ⟨chars, fails⟩) := by
  induction chars using lines_induction generalizing n with
  | unfinished seg hseg =>
    rw [lines_unfinished hseg]
    cases n with
    | zero =>
      rw [call, myReadline_unfinished hseg]
      cases fails <;> by_cases hnil : seg = [] <;> simp [atEnd, hnil]
    | succ n =>
      rw [call, myReadline_unfinished hseg, call_end]
      split_ifs <;> rfl
  | line seg rest hseg ih =>
    obtain ⟨hne, hrest⟩ := (noEmptyLine_line hseg).1 h
    rw [lines_line hseg]
    -- the first call returns this line, the others those of the rest
    cases n with
    | zero =>
      rw [call, myReadline_line hseg, if_neg hne]
      rfl
    | succ n =>
      rw [call, myReadline_line hseg]
      exact ih hrest n

/-- An empty line is not returned. -/
theorem noEmptyLine_of_call (fails : Bool) (chars : List Char)
    (h : ∀ n, call n ⟨chars, fails⟩ = ((lines ⟨chars, fails⟩)[n]?).or (atEnd ⟨chars, fails⟩)) :
    NoEmptyLine chars := by
  induction chars using lines_induction with
  | unfinished seg hseg => exact noEmptyLine_unfinished hseg
  | line seg rest hseg ih =>
    rw [noEmptyLine_line hseg]
    constructor
    · rintro rfl
      -- the call returns null, and the line is there
      have hfirst := h 0
      rw [call, myReadline_line hseg, lines_line hseg] at hfirst
      cases hfirst
    · refine ih fun n => ?_
      have hnext := h (n + 1)
      rw [call, myReadline_line hseg, lines_line hseg] at hnext
      exact hnext

/-! ## The loop -/

variable {closed : BufferedReader → Bool} {handles : BufferedReader → List Char → Bool} {fuel : ℕ}

/-- Nothing ends the loop before the end: as long as something is left, the socket is open, and a line with something
behind it is not the text for an exception and is handled without one. -/
inductive Undisturbed (closed : BufferedReader → Bool) (handles : BufferedReader → List Char → Bool) (fails : Bool) :
    List Char → Prop
  | unfinished {seg : List Char} : '\n' ∉ seg → (seg ≠ [] → closed ⟨seg, fails⟩ = false) → Undisturbed closed handles fails seg
  | line {seg rest : List Char} : '\n' ∉ seg → closed ⟨seg ++ '\n' :: rest, fails⟩ = false →
      (rest ≠ [] → seg ≠ disconnected ∧ handles ⟨seg ++ '\n' :: rest, fails⟩ seg) →
      Undisturbed closed handles fails rest → Undisturbed closed handles fails (seg ++ '\n' :: rest)

/-- The first of the lines is determined. -/
theorem line_inj {seg' rest' : List Char} (h : '\n' ∉ seg) (h' : '\n' ∉ seg')
    (heq : seg ++ '\n' :: rest = seg' ++ '\n' :: rest') : seg = seg' ∧ rest = rest' := by
  have hsplit := congrArg (split ['\n']) heq
  rw [split_line h, split_line h', List.cons.injEq] at hsplit
  refine ⟨hsplit.1, ?_⟩
  rw [hsplit.1] at heq
  exact (List.cons.inj (List.append_cancel_left heq)).2

theorem undisturbed_unfinished (h : '\n' ∉ seg) :
    Undisturbed closed handles fails seg ↔ (seg ≠ [] → closed ⟨seg, fails⟩ = false) := by
  constructor
  · intro hseg
    cases hseg with
    | unfinished _ hopen => exact hopen
    | line => simp at h
  · exact .unfinished h

theorem undisturbed_line (h : '\n' ∉ seg) :
    Undisturbed closed handles fails (seg ++ '\n' :: rest) ↔
      closed ⟨seg ++ '\n' :: rest, fails⟩ = false ∧
        (rest ≠ [] → seg ≠ disconnected ∧ handles ⟨seg ++ '\n' :: rest, fails⟩ seg) ∧
        Undisturbed closed handles fails rest := by
  constructor
  · intro hline
    generalize hchars : seg ++ '\n' :: rest = chars at hline
    cases hline with
    | unfinished hnone => exact absurd (hchars ▸ by simp) hnone
    | line hseg' hopen hhandled hrest =>
      obtain ⟨rfl, rfl⟩ := line_inj h hseg' hchars
      exact ⟨hopen, hhandled, hrest⟩
  · rintro ⟨hopen, hhandled, hrest⟩
    exact .line h hopen hhandled hrest

/-- What the loop does with a line that is not empty. -/
theorem run_line (h : '\n' ∉ seg) (hne : seg ≠ []) :
    run closed handles (fuel + 1) ⟨seg ++ '\n' :: rest, fails⟩ =
      if closed ⟨seg ++ '\n' :: rest, fails⟩ then some (.socketClosed, ⟨seg ++ '\n' :: rest, fails⟩)
      else if seg = disconnected then some (.disconnected, ⟨rest, fails⟩)
      else if !handles ⟨seg ++ '\n' :: rest, fails⟩ seg then some (.exception, ⟨rest, fails⟩)
      else run closed handles fuel ⟨rest, fails⟩ := by
  rw [run, myReadline_line h, if_neg hne]
  simp [List.length_pos_iff.2 hne]

/-- The last call leaves nothing. -/
theorem run_unfinished {e : LoopEnd} {s : BufferedReader} (h : '\n' ∉ seg)
    (hopen : seg ≠ [] → closed ⟨seg, fails⟩ = false) (hrun : run closed handles fuel ⟨seg, fails⟩ = some (e, s)) :
    s.chars = [] := by
  induction fuel generalizing seg with
  | zero => cases hrun
  | succ fuel ih =>
    rw [run, myReadline_unfinished h] at hrun
    split_ifs at hrun with hclosed hfails hnil
    · cases hrun
      by_contra hne
      rw [hopen hne] at hclosed
      cases hclosed
    · cases hrun
      rfl
    · cases hrun
      rfl
    · simp only at hrun
      split_ifs at hrun
      · cases hrun
        rfl
      · cases hrun
        rfl
      · exact ih List.not_mem_nil (fun hne => absurd rfl hne) hrun

/-- **With no empty line, nothing is left at the end of the loop exactly if nothing ends it before.** -/
theorem run_end_iff (h : NoEmptyLine chars) :
    (∀ fuel e s, run closed handles fuel ⟨chars, fails⟩ = some (e, s) → s.chars = []) ↔
      Undisturbed closed handles fails chars := by
  induction chars using lines_induction with
  | unfinished seg hseg =>
    rw [undisturbed_unfinished hseg]
    constructor
    · intro hend hne
      by_contra hclosed
      rw [Bool.not_eq_false] at hclosed
      -- the loop ends before its first call
      have hrun : run closed handles 1 ⟨seg, fails⟩ = some (.socketClosed, ⟨seg, fails⟩) := by
        rw [run, if_pos hclosed]
      exact hne (hend _ _ _ hrun)
    -- the last call takes all that is left
    · intro hopen fuel e s hrun
      exact run_unfinished hseg hopen hrun
  | line seg rest hseg ih =>
    obtain ⟨hne, hrest⟩ := (noEmptyLine_line hseg).1 h
    rw [undisturbed_line hseg, ← ih hrest]
    constructor
    · intro hend
      have hopen : closed ⟨seg ++ '\n' :: rest, fails⟩ = false := by
        by_contra hclosed
        rw [Bool.not_eq_false] at hclosed
        have hrun : run closed handles 1 ⟨seg ++ '\n' :: rest, fails⟩ =
            some (.socketClosed, ⟨seg ++ '\n' :: rest, fails⟩) := by
          rw [run, if_pos hclosed]
        exact List.append_ne_nil_of_right_ne_nil _ (List.cons_ne_nil _ _) (hend _ _ _ hrun)
      have hword : rest ≠ [] → seg ≠ disconnected := by
        intro hbehind hword
        have hrun : run closed handles 1 ⟨seg ++ '\n' :: rest, fails⟩ = some (.disconnected, ⟨rest, fails⟩) := by
          rw [run_line hseg hne, hopen, if_neg Bool.false_ne_true, if_pos hword]
        exact hbehind (hend _ _ _ hrun)
      have hdone : rest ≠ [] → handles ⟨seg ++ '\n' :: rest, fails⟩ seg := by
        intro hbehind
        by_contra hthrows
        rw [Bool.not_eq_true] at hthrows
        have hrun : run closed handles 1 ⟨seg ++ '\n' :: rest, fails⟩ = some (.exception, ⟨rest, fails⟩) := by
          rw [run_line hseg hne, hopen, if_neg Bool.false_ne_true, if_neg (hword hbehind), hthrows]
          rfl
        exact hbehind (hend _ _ _ hrun)
      refine ⟨hopen, fun hbehind => ⟨hword hbehind, hdone hbehind⟩, fun fuel e s hrun => ?_⟩
      by_cases hnil : rest = []
      · subst hnil
        exact run_unfinished List.not_mem_nil (fun hne => absurd rfl hne) hrun
      · refine hend (fuel + 1) e s ?_
        rw [run_line hseg hne, hopen, if_neg Bool.false_ne_true, if_neg (hword hnil), hdone hnil]
        exact hrun
    · rintro ⟨hopen, hhandled, hend⟩ fuel e s hrun
      cases fuel with
      | zero => cases hrun
      | succ fuel =>
        rw [run_line hseg hne, hopen, if_neg Bool.false_ne_true] at hrun
        by_cases hnil : rest = []
        · subst hnil
          split_ifs at hrun
          · cases hrun
            rfl
          · cases hrun
            rfl
          · exact hend _ _ _ hrun
        · obtain ⟨hword, hdone⟩ := hhandled hnil
          rw [if_neg hword, hdone] at hrun
          exact hend _ _ _ hrun

theorem length_myReadline {buffer : List Char} {rest : BufferedReader} (h : r.myReadline = (some buffer, rest))
    (hbuffer : buffer ≠ disconnected) : rest.chars.length < r.chars.length := by
  obtain ⟨chars, fails⟩ := r
  by_cases hnewline : '\n' ∈ chars
  · obtain ⟨seg, behind, rfl, hseg⟩ := List.eq_append_cons_of_mem hnewline
    rw [myReadline_line hseg, Prod.mk.injEq] at h
    rw [← h.2]
    show behind.length < (seg ++ '\n' :: behind).length
    rw [List.length_append, List.length_cons]
    omega
  · rw [myReadline_unfinished hnewline, Prod.mk.injEq] at h
    rw [← h.2]
    refine List.length_pos_iff.2 ?_
    rintro rfl
    -- at the end there is nothing but the text for an exception
    cases fails with
    | true => exact hbuffer (Option.some.inj h.1).symm
    | false => cases h.1

/-- **The loop ends**, at the latest when the stream does. -/
theorem run_total (h : r.chars.length < fuel) : ∃ e s, run closed handles fuel r = some (e, s) := by
  induction fuel generalizing r with
  | zero => omega
  | succ fuel ih =>
    rw [run]
    split_ifs
    · exact ⟨_, _, rfl⟩
    · match hcall : r.myReadline with
      | (none, rest) => exact ⟨_, _, rfl⟩
      | (some buffer, rest) =>
        simp only
        split_ifs with hbuffer
        · exact ⟨_, _, rfl⟩
        · exact ⟨_, _, rfl⟩
        · refine ih ?_
          have hlt := length_myReadline hcall hbuffer
          omega

/-- **The calls return the lines of the stream, and the loop ends only where nothing of it is left, exactly if no line
is empty and nothing else ends the loop before.** -/
theorem call_lines_iff (r : BufferedReader) (closed : BufferedReader → Bool)
    (handles : BufferedReader → List Char → Bool) :
    (∀ fuel, r.chars.length < fuel → (run closed handles fuel r).isSome) ∧
      (((∀ n, r.call n = (r.lines[n]?).or r.atEnd) ∧
          ∀ fuel e s, run closed handles fuel r = some (e, s) → s.chars = []) ↔
        NoEmptyLine r.chars ∧ Undisturbed closed handles r.fails r.chars) := by
  constructor
  · intro fuel hfuel
    obtain ⟨e, s, hrun⟩ : ∃ e s, run closed handles fuel r = some (e, s) := run_total hfuel
    rw [hrun]
    rfl
  · constructor
    · rintro ⟨hcall, hend⟩
      have hlines := noEmptyLine_of_call r.fails r.chars hcall
      exact ⟨hlines, (run_end_iff hlines).1 hend⟩
    · rintro ⟨hlines, hundisturbed⟩
      exact ⟨call_eq r.fails r.chars hlines, (run_end_iff hlines).2 hundisturbed⟩

/-- A line, an empty line, and another line. -/
def emptyBetween : BufferedReader := { chars := "a\n\nb".toList }

/-- The second call returns null in place of the empty line, and the loop ends with a line unread, though the socket
stays open and every line is handled. -/
theorem emptyBetween_ends :
    (¬∀ n, emptyBetween.call n = (emptyBetween.lines[n]?).or emptyBetween.atEnd) ∧
      ¬∀ fuel e s, run (fun _ => false) (fun _ _ => true) fuel emptyBetween = some (e, s) → s.chars = [] := by
  constructor
  · intro h
    have hsecond : call 1 emptyBetween = none := by decide
    have hline : (emptyBetween.lines[1]?).or emptyBetween.atEnd = some [] := by decide
    have hcall := h 1
    rw [hsecond, hline] at hcall
    cases hcall
  · intro h
    have hrun : run (fun _ => false) (fun _ _ => true) 5 emptyBetween = some (.null, ⟨"b".toList, false⟩) := by decide
    have hend : "b".toList = [] := h _ _ _ hrun
    revert hend
    decide

end CaptureHPC.BufferedReader
