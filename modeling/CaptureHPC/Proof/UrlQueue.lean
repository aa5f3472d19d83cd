import CaptureHPC.Spec.UrlQueue

/-!
# Which URL is taken first

* `contract_comparePriority`: the comparator is a total preorder where no difference leaves the range of
  `int`.
* `run_ordered`: so the queue stays a heap.
* `takes_maximal`: with a set of priorities the first URL always has a maximal one if and only if these
  differences fit, and priorities that differ are not the same hundredths.
-/

namespace CaptureHPC

open Lib

namespace UrlQueue

/-- No URL in the queue has a higher priority than the one that is taken. -/
def TakesMaximal (urlQueue : List PriorityUrl) : Prop :=
  (urlQueue ≠ [] → (takeUrl urlQueue).isSome) ∧
    ∀ url rest, takeUrl urlQueue = some (url, rest) → ∀ other ∈ urlQueue, ¬Binary64.Lt url.priority other.priority

/-- The priorities of the URLs that are added. -/
def Adds (P : Set Binary64) (calls : List Call) : Prop := ∀ url, Call.addUrl url ∈ calls → url.priority ∈ P

/-- The scaled priorities are in the order of the priorities, and their differences are `int`s. -/
structure InRange (P : Set Binary64) : Prop where
  fits : ∀ p ∈ P, ∀ q ∈ P, scaledPriority q - scaledPriority p < 2 ^ 31
  apart : ∀ p ∈ P, ∀ q ∈ P, Binary64.Lt p q → scaledPriority p < scaledPriority q

variable {P : Set Binary64} {urlQueue : List PriorityUrl}

theorem comparePriority_eq {p q : Binary64} (hpq : scaledPriority q - scaledPriority p < 2 ^ 31)
    (hqp : scaledPriority p - scaledPriority q < 2 ^ 31) : comparePriority p q = scaledPriority q - scaledPriority p := by
  rw [comparePriority]
  exact Int.bmod_eq_of_le (by omega) (by omega)

/-- The difference overflows. -/
theorem bmod_nonneg {d : ℤ} (hlow : -2 ^ 32 < d) (hhigh : d < -2 ^ 31) : 0 ≤ d.bmod (2 ^ 32) := by
  rw [Int.bmod_def]
  norm_num at hlow hhigh ⊢
  split_ifs <;> omega

/-- **Without overflow the comparator is a total preorder.** -/
theorem contract_comparePriority (h : ∀ p ∈ P, ∀ q ∈ P, scaledPriority q - scaledPriority p < 2 ^ 31) :
    PriorityQueue.Contract comparePriority P := by
  constructor
  · intro p hp q hq
    rw [comparePriority_eq (h p hp q hq) (h q hq p hp), comparePriority_eq (h q hq p hp) (h p hp q hq)]
    omega
  · intro p hp q hq r hr hpq hqr
    rw [comparePriority_eq (h p hp q hq) (h q hq p hp)] at hpq
    rw [comparePriority_eq (h q hq r hr) (h r hr q hq)] at hqr
    rw [comparePriority_eq (h p hp r hr) (h r hr p hp)]
    omega

theorem contract_compare (h : PriorityQueue.Contract comparePriority P) (hP : ∀ url ∈ urlQueue, url.priority ∈ P) :
    PriorityQueue.Contract compare {url | url ∈ urlQueue} :=
  ⟨fun a ha b hb => h.total _ (hP a ha) _ (hP b hb),
    fun a ha b hb c hc => h.trans _ (hP a ha) _ (hP b hb) _ (hP c hc)⟩

/-! ## Runs -/

/-- A call keeps the queue a heap of URLs with these priorities. -/
theorem step_ordered (hc : PriorityQueue.Contract comparePriority P) (call : Call)
    (hcall : ∀ url, call = .addUrl url → url.priority ∈ P) (hP : ∀ url ∈ urlQueue, url.priority ∈ P)
    (h : PriorityQueue.Ordered compare urlQueue) :
    (∀ url ∈ step urlQueue call, url.priority ∈ P) ∧ PriorityQueue.Ordered compare (step urlQueue call) := by
  cases call with
  | addUrl url =>
    have hall : ∀ other ∈ url :: urlQueue, other.priority ∈ P := List.forall_mem_cons.2 ⟨hcall url rfl, hP⟩
    rw [step, addUrl]
    split_ifs with hdupe
    · exact ⟨hP, h⟩
    · constructor
      · intro other hother
        exact hall other ((PriorityQueue.offer_perm url urlQueue).mem_iff.1 hother)
      · exact h.offer (contract_compare hc hall)
  | takeUrl =>
    rw [step, takeUrl]
    cases hpoll : PriorityQueue.poll compare urlQueue with
    | none => exact ⟨hP, h⟩
    | some taken =>
      obtain ⟨url, rest⟩ := taken
      have hperm := (PriorityQueue.poll_perm hpoll).2
      constructor
      · intro other hother
        exact hP other (hperm.mem_iff.2 (List.mem_cons_of_mem url hother))
      · exact h.poll (contract_compare hc hP) hpoll

/-- **The queue is a heap after any calls.** -/
theorem run_ordered (hc : PriorityQueue.Contract comparePriority P) (calls : List Call) (hadds : Adds P calls) :
    (∀ url ∈ run calls, url.priority ∈ P) ∧ PriorityQueue.Ordered compare (run calls) := by
  induction calls using List.reverseRecOn with
  | nil =>
    rw [run, List.foldl_nil]
    exact ⟨by simp, fun j _ => by rw [PriorityQueue.cmpAt_of_le (.inl (Nat.zero_le _))]⟩
  | append_singleton calls call ih =>
    obtain ⟨hP, hordered⟩ := ih fun url hurl => hadds url (List.mem_append_left _ hurl)
    have hcall : ∀ url, call = .addUrl url → url.priority ∈ P := by
      rintro url rfl
      exact hadds url (List.mem_append_right _ (List.mem_singleton.2 rfl))
    rw [run, List.foldl_append, List.foldl_cons, List.foldl_nil]
    exact step_ordered hc call hcall hP hordered

/-- The first URL of a heap has a maximal priority. -/
theorem takesMaximal_of_ordered (hrange : InRange P) (hP : ∀ url ∈ urlQueue, url.priority ∈ P)
    (h : PriorityQueue.Ordered compare urlQueue) : TakesMaximal urlQueue := by
  have hc := contract_compare (contract_comparePriority hrange.fits) hP
  constructor
  · intro hne
    rw [← Option.ne_none_iff_isSome]
    exact fun hnone => hne (PriorityQueue.poll_eq_none.1 hnone)
  · intro url rest htake other hother hlt
    obtain ⟨hhead, hperm⟩ := PriorityQueue.poll_perm htake
    have hurl : url ∈ urlQueue := hperm.mem_iff.2 List.mem_cons_self
    have hle := h.head_le hc hhead other hother
    rw [compare, comparePriority_eq (hrange.fits _ (hP _ hurl) _ (hP _ hother))
      (hrange.fits _ (hP _ hother) _ (hP _ hurl))] at hle
    have hscaled := hrange.apart _ (hP _ hurl) _ (hP _ hother) hlt
    omega

/-! ## Two URLs -/

/-- A URL of this text and priority. -/
def named (url : String) (priority : Binary64) : PriorityUrl :=
  { url := url, id := 0, clientProgram := "", visitTime := 0, priority := priority }

/-- Two URLs that are no duplicates of each other. -/
def two (p q : Binary64) : List Call := [.addUrl (named "a" p), .addUrl (named "b" q)]

theorem addUrl_nil (url : PriorityUrl) : addUrl url [] = [url] := rfl

/-- The second URL stays behind the first unless it compares before it. -/
theorem addUrl_singleton {a b : PriorityUrl} (hother : equalsIgnoreCase b.escapedUrl a.escapedUrl = false)
    (hcompare : 0 ≤ compare b a) : addUrl b [a] = [a, b] := by
  have hdupe : inUrlQueue b [a] = false := by simp [inUrlQueue, hother]
  have hstays : ¬(0 < 1 ∧ PriorityQueue.cmpAt compare [a, b] 1 (PriorityQueue.parent 1) < 0) := fun h =>
    not_lt.2 hcompare h.2
  rw [addUrl, hdupe]
  exact if_neg hstays

/-- The first of two URLs is taken first, so its priority is no lower. -/
theorem not_lt_of_two {p q : Binary64} (h : TakesMaximal (run (two p q))) (hcompare : 0 ≤ comparePriority q p) :
    ¬Binary64.Lt p q := by
  have hother : equalsIgnoreCase (named "b" q).escapedUrl (named "a" p).escapedUrl = false := by
    show equalsIgnoreCase (urlEncode "b") (urlEncode "a") = false
    decide
  have hrun : run (two p q) = [named "a" p, named "b" q] := by
    rw [run, two, List.foldl_cons, List.foldl_cons, List.foldl_nil, step, step, addUrl_nil,
      addUrl_singleton hother hcompare]
  rw [hrun] at h
  exact h.2 _ _ rfl _ (List.mem_cons_of_mem _ List.mem_cons_self)

theorem two_adds {p q : Binary64} (hp : p ∈ P) (hq : q ∈ P) : Adds P (two p q) := by
  intro url hurl
  simp only [two, List.mem_cons, Call.addUrl.injEq, List.not_mem_nil, or_false] at hurl
  rcases hurl with rfl | rfl
  · exact hp
  · exact hq

/-- Scaled priorities that are far apart are those of numbers. -/
theorem lt_of_far {p q : Binary64} (h : 2 ^ 31 < scaledPriority q - scaledPriority p) : Binary64.Lt p q := by
  have hpbounds := Binary64.toInt_bounds (p.scale 100)
  have hqbounds := Binary64.toInt_bounds (q.scale 100)
  unfold scaledPriority at h
  have hp : p ≠ .nan := by
    rintro rfl
    have hzero : (Binary64.scale 100 .nan).toInt = 0 := rfl
    omega
  have hq : q ≠ .nan := by
    rintro rfl
    have hzero : (Binary64.scale 100 .nan).toInt = 0 := rfl
    omega
  by_contra hnot
  have hle := Binary64.toInt_scale_le 100 hp hq hnot
  omega

/-- **With a set of priorities the comparator is a total preorder and the first URL always has a maximal one
if and only if the scaled differences fit and tell the priorities apart.** -/
theorem takes_maximal (P : Set Binary64) :
    (PriorityQueue.Contract comparePriority P ∧ ∀ calls, Adds P calls → TakesMaximal (run calls)) ↔ InRange P := by
  constructor
  · rintro ⟨hc, hall⟩
    have htwo : ∀ p ∈ P, ∀ q ∈ P, 0 ≤ comparePriority q p → ¬Binary64.Lt p q := fun p hp q hq =>
      not_lt_of_two (hall _ (two_adds hp hq))
    have hfits : ∀ p ∈ P, ∀ q ∈ P, scaledPriority q - scaledPriority p < 2 ^ 31 := by
      intro p hp q hq
      have hpbounds := Binary64.toInt_bounds (p.scale 100)
      have hqbounds := Binary64.toInt_bounds (q.scale 100)
      by_contra hfar
      rcases (not_lt.1 hfar).eq_or_lt with heq | hlt
      · -- both differences are the smallest int
        have hpq : comparePriority p q = -2 ^ 31 := by
          rw [comparePriority, ← heq]
          decide
        have hqp : comparePriority q p = -2 ^ 31 := by
          rw [comparePriority, show scaledPriority p - scaledPriority q = -2 ^ 31 by omega]
          decide
        have htotal := hc.total p hp q hq
        rw [hpq, hqp] at htotal
        exact absurd (htotal.1 (by norm_num)) (by norm_num)
      · refine htwo p hp q hq (bmod_nonneg ?_ (by omega)) (lt_of_far hlt)
        unfold scaledPriority
        omega
    refine ⟨hfits, fun p hp q hq hlt => ?_⟩
    by_contra hle
    refine htwo p hp q hq ?_ hlt
    rw [comparePriority_eq (hfits q hq p hp) (hfits p hp q hq)]
    omega
  · intro h
    refine ⟨contract_comparePriority h.fits, fun calls hadds => ?_⟩
    obtain ⟨hP, hordered⟩ := run_ordered (contract_comparePriority h.fits) calls hadds
    exact takesMaximal_of_ordered h hP hordered

/-- Two lines of different scores, of which the lower one is taken first. -/
theorem lower_score_taken : ∃ a b : PriorityUrl,
    UrlFactory.getUrl (fun _ => true) ⟨"iexplore", some "30"⟩ "http://a.pl::0.001" (some "1") = .ok a ∧
      UrlFactory.getUrl (fun _ => true) ⟨"iexplore", some "30"⟩ "http://b.pl::0.002" (some "2") = .ok b ∧
      ¬TakesMaximal (run [.addUrl a, .addUrl b]) := by
  let a : PriorityUrl := { named "http://a.pl" (.ofMagnitude false (1 / 1000)) with id := 1, clientProgram := "iexplore", visitTime := 30 }
  let b : PriorityUrl := { named "http://b.pl" (.ofMagnitude false (2 / 1000)) with id := 2, clientProgram := "iexplore", visitTime := 30 }
  refine ⟨a, b, by decide +kernel, by decide +kernel, ?_⟩
  rintro ⟨-, h⟩
  have hcompare : compare b a = 0 := by decide +kernel
  have hother : equalsIgnoreCase b.escapedUrl a.escapedUrl = false := by decide
  have hrun : run [.addUrl a, .addUrl b] = [a, b] := by
    rw [run, List.foldl_cons, List.foldl_cons, List.foldl_nil, step, step, addUrl_nil,
      addUrl_singleton hother hcompare.ge]
  rw [hrun] at h
  refine h a [b] rfl b (List.mem_cons_of_mem _ List.mem_cons_self) ?_
  decide +kernel

end UrlQueue

end CaptureHPC
