import CaptureHPC.Proof.Visitor

/-!
# The error code of a group

A plugin sets the code of each URL on the event of the group, one after the other.

* `foldl_cases`: what the codes come to, by the first that is not OK and what follows it.
* `groupErrorCode_iff`: the code sums the codes up exactly if a single failure comes last.
-/

namespace CaptureHPC.Cpp

open ErrorCodes

namespace VisitEvent

variable {codes order : List UInt32} {c code : UInt32}

/-- The codes of the URLs that failed. -/
def failed (codes : List UInt32) : List UInt32 := codes.filter (· ≠ captureVisitationOk)

/-- The code that sums up the codes of the URLs. -/
structure Summary (codes : List UInt32) (code : UInt32) : Prop where
  none : failed codes = [] → code = captureVisitationOk
  one : ∀ c, failed codes = [c] → code = c
  many : 2 ≤ (failed codes).length → code = captureVisitationMultipleErrors

/-- The code of a new event after the codes of its URLs are set. -/
def groupErrorCode (identifier program : WString) (urls : List WString) (codes : List UInt32) : UInt32 :=
  (codes.foldl setErrorCode { identifier := identifier, program := program, urls := urls }).errorCode

theorem failed_eq_nil (h : ∀ c ∈ codes, c = captureVisitationOk) : failed codes = [] := by
  rw [failed, List.filter_eq_nil_iff]
  intro c hc
  simpa using h c hc

theorem failed_append (codes order : List UInt32) : failed (codes ++ order) = failed codes ++ failed order :=
  List.filter_append ..

theorem failed_cons (hc : c ≠ captureVisitationOk) (codes : List UInt32) : failed (c :: codes) = c :: failed codes :=
  List.filter_cons_of_pos (decide_eq_true hc)

/-- Codes that say OK, and the code of the first URL that failed with what follows it. -/
theorem foldl_cases (identifier program : WString) (urls : List WString) (codes : List UInt32) :
    (failed codes = [] ∧ groupErrorCode identifier program urls codes = captureVisitationOk) ∨
      ∃ oks c rest, codes = oks ++ c :: rest ∧ failed codes = c :: failed rest ∧ c ≠ captureVisitationOk ∧
        groupErrorCode identifier program urls codes = if rest = [] then c else captureVisitationMultipleErrors := by
  have hfold : groupErrorCode identifier program urls codes = _ := Visitor.foldl_setErrorCode rfl
  have hsplit := List.takeWhile_append_dropWhile (p := fun c => decide (c = captureVisitationOk)) (l := codes)
  have hoks : ∀ c ∈ codes.takeWhile (fun c => decide (c = captureVisitationOk)), c = captureVisitationOk := by
    intro c hc
    have hok := List.mem_takeWhile_imp hc
    simpa using hok
  have hhead := List.head?_dropWhile_not (fun c => decide (c = captureVisitationOk)) codes
  cases hrest : codes.dropWhile fun c => decide (c = captureVisitationOk) with
  | nil =>
    rw [hrest, List.append_nil] at hsplit
    rw [hrest] at hfold
    exact .inl ⟨failed_eq_nil (hsplit ▸ hoks), hfold⟩
  | cons c rest =>
    rw [hrest] at hhead hsplit hfold
    have hc : c ≠ captureVisitationOk := by simpa using hhead
    refine .inr ⟨_, c, rest, hsplit.symm, ?_, hc, ?_⟩
    · rw [← hsplit, failed_append, failed_eq_nil hoks, List.nil_append, failed_cons hc]
    · rw [hfold]
      cases rest <;> rfl

/-- The codes in another order have the same summary. -/
theorem summary_perm (h : order.Perm codes) : Summary order code ↔ Summary codes code := by
  have hfailed : (failed order).Perm (failed codes) := h.filter _
  have hone : ∀ c, failed order = [c] ↔ failed codes = [c] := by
    intro c
    constructor
    · intro hc
      exact List.perm_singleton.1 (hc ▸ hfailed.symm)
    · intro hc
      exact List.perm_singleton.1 (hc ▸ hfailed)
  have hnone : failed order = [] ↔ failed codes = [] := by
    rw [← List.length_eq_zero_iff, hfailed.length_eq, List.length_eq_zero_iff]
  constructor
  · intro ⟨h0, h1, h2⟩
    exact ⟨fun h => h0 (hnone.2 h), fun c hc => h1 c ((hone c).2 hc), fun h => h2 (hfailed.length_eq ▸ h)⟩
  · intro ⟨h0, h1, h2⟩
    exact ⟨fun h => h0 (hnone.1 h), fun c hc => h1 c ((hone c).1 hc), fun h => h2 (hfailed.length_eq ▸ h)⟩

/-- A single failure is summed up if it comes last, or its own code says that there were several. -/
theorem summary_iff (identifier program : WString) (urls : List WString) (codes : List UInt32) :
    Summary codes (groupErrorCode identifier program urls codes) ↔
      ∀ c, failed codes = [c] → c = captureVisitationMultipleErrors ∨ codes.getLast? = some c := by
  rcases foldl_cases identifier program urls codes with ⟨hfailed, hcode⟩ | ⟨oks, c, rest, hsplit, hfailed, hc, hcode⟩
  · rw [hcode]
    refine iff_of_true ⟨fun _ => rfl, fun c h => ?_, fun h => ?_⟩ fun c h => ?_
    · rw [hfailed] at h
      cases h
    · rw [hfailed] at h
      cases h
    · rw [hfailed] at h
      cases h
  · rw [hcode]
    by_cases hrest : rest = []
    · subst hrest
      rw [if_pos rfl]
      refine iff_of_true ⟨fun h => ?_, fun d h => ?_, fun h => ?_⟩ fun d h => ?_
      · rw [hfailed] at h
        cases h
      · rw [hfailed] at h
        exact (List.cons.inj h).1
      · rw [hfailed] at h
        cases h with
        | step h => cases h
      · rw [hfailed] at h
        rw [hsplit, List.getLast?_concat, (List.cons.inj h).1]
        exact .inr rfl
    · rw [if_neg hrest]
      constructor
      · intro h d hd
        exact .inl (h.one d hd).symm
      · intro h
        refine ⟨fun hnil => ?_, fun d hd => ?_, fun _ => rfl⟩
        · rw [hfailed] at hnil
          cases hnil
        · rcases h d hd with hmultiple | hlast
          · exact hmultiple.symm
          · -- the last code is among those behind the first failure, which all say OK
            rw [hfailed] at hd
            obtain ⟨rfl, hnone⟩ := List.cons.inj hd
            have hmem : c ∈ rest := by
              rw [hsplit, List.getLast?_append_of_ne_nil _ (List.cons_ne_nil _ _), List.getLast?_cons_of_ne_nil hrest] at hlast
              exact List.mem_of_getLast? hlast
            have hfail : c ∈ failed rest := List.mem_filter.2 ⟨hmem, decide_eq_true hc⟩
            rw [hnone] at hfail
            cases hfail

/-- **The code of a group sums up the codes of its URLs exactly if a single failure is the last of them**, and in
every order exactly if a single failure is the only URL. -/
theorem groupErrorCode_iff (identifier program : WString) (urls : List WString) (codes : List UInt32) :
    (Summary codes (groupErrorCode identifier program urls codes) ↔
      ∀ c, failed codes = [c] → c = captureVisitationMultipleErrors ∨ codes.getLast? = some c) ∧
    ((∀ order, order.Perm codes → Summary codes (groupErrorCode identifier program urls order)) ↔
      ∀ c, failed codes = [c] → c = captureVisitationMultipleErrors ∨ codes = [c]) := by
  refine ⟨summary_iff identifier program urls codes, fun h c hc => ?_, fun h order hperm => ?_⟩
  · by_contra hnot
    rw [not_or] at hnot
    -- the failure first, and the others behind it
    have hmem : c ∈ codes := (List.mem_filter.1 (hc ▸ List.mem_singleton_self c : c ∈ failed codes)).1
    have hperm : (c :: codes.erase c).Perm codes := (List.perm_cons_erase hmem).symm
    have hcne : c ≠ captureVisitationOk := by
      have := (List.mem_filter.1 (hc ▸ List.mem_singleton_self c : c ∈ failed codes)).2
      exact of_decide_eq_true this
    have hfailed : failed (c :: codes.erase c) = [c] :=
      List.perm_singleton.1 (hc ▸ (hperm.filter _ : (failed (c :: codes.erase c)).Perm (failed codes)))
    have hsummary := (summary_perm hperm).2 (h _ hperm)
    rcases (summary_iff identifier program urls _).1 hsummary c hfailed with hmultiple | hlast
    · exact hnot.1 hmultiple
    · have hnone : failed (codes.erase c) = [] := by
        rw [failed_cons hcne] at hfailed
        exact (List.cons.inj hfailed).2
      by_cases hrest : codes.erase c = []
      · rw [hrest] at hperm
        exact hnot.2 (List.perm_singleton.1 hperm.symm)
      · rw [List.getLast?_cons_of_ne_nil hrest] at hlast
        have hfail : c ∈ failed (codes.erase c) :=
          List.mem_filter.2 ⟨List.mem_of_getLast? hlast, decide_eq_true hcne⟩
        rw [hnone] at hfail
        cases hfail
  · refine (summary_perm hperm).1 ((summary_iff identifier program urls order).2 fun c hc => ?_)
    have hfailed : failed codes = [c] :=
      List.perm_singleton.1 (hc ▸ (hperm.filter _ : (failed order).Perm (failed codes)).symm)
    rcases h c hfailed with hmultiple | hsingle
    · exact .inl hmultiple
    · rw [hsingle] at hperm
      rw [List.perm_singleton.1 hperm]
      exact .inr rfl

/-- One URL fails, and the one after it does not. -/
theorem failure_then_ok :
    ¬Summary [captureVisitationException, captureVisitationOk]
      (groupErrorCode [] [] [[], []] [captureVisitationException, captureVisitationOk]) := by
  intro h
  have hcode := h.one captureVisitationException (by decide)
  revert hcode
  decide

end VisitEvent

end CaptureHPC.Cpp
