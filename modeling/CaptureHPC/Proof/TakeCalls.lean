import CaptureHPC.Spec.TakeCalls

/-!
# Taking groups beside each other

* In every run what the calls have and what is queued is what was pushed and added
  (`Accounted`), so no URL is with two calls, and no group with more than it was pushed for
  (`HandedOnce`).
* A call that has seen a queue that is not empty finds it so when it takes, as long as no more
  calls have seen it than it has elements (`Covered`).
-/

namespace CaptureHPC

open Lib

namespace TakeCall

/-- The group of the queue that a call has. -/
def groups : TakeCall → List ℕ
  | returned (some (.popped g)) => [g]
  | _ => []

/-- The URLs that a call has taken. -/
def urls : TakeCall → List ℕ
  | filling _ urlList | taking _ urlList | returned (some (.made urlList)) => urlList
  | _ => []

def isPopping (c : TakeCall) : Bool := c = popping

def isTaking : TakeCall → Bool
  | taking .. => true
  | _ => false

/-- The call looks next whether `urlQueue` is empty. -/
def looks : TakeCall → Bool
  | filling (_ + 1) _ => true
  | _ => false

end TakeCall

namespace TakeCalls

variable {groupSize : ℤ} {s s' : TakeCalls} {a : TakeStep} {i : ℕ} {c : TakeCall}

/-- **What a call's next operation does.** -/
inductive Moves (s : TakeCalls) (i : ℕ) : TakeCalls → Prop
  | quiet {c c' : TakeCall} (call : s.calls[i]? = some c) (groups : c'.groups = c.groups) (urls : c'.urls = c.urls)
      (popping : c.isPopping = false ∧ c'.isPopping = false) (taking : c.isTaking = false ∧ c'.isTaking = false)
      (threw : c' ≠ .threw) : Moves s i (s.setCall i c')
  | sees (call : s.calls[i]? = some .started) (queue : s.urlGroupQueue ≠ []) : Moves s i (s.setCall i .popping)
  | pops {g : ℕ} {rest : List ℕ} (call : s.calls[i]? = some .popping) (queue : s.urlGroupQueue = g :: rest) :
      Moves s i ({ s with urlGroupQueue := rest }.setCall i (.returned (some (.popped g))))
  | throws (call : s.calls[i]? = some .popping) (queue : s.urlGroupQueue = []) : Moves s i (s.setCall i .threw)
  | looks {left : ℕ} {urlList : List ℕ} (call : s.calls[i]? = some (.filling (left + 1) urlList))
      (queue : s.urlQueue ≠ []) : Moves s i (s.setCall i (.taking left urlList))
  | takes {left pick u : ℕ} {urlList : List ℕ} (call : s.calls[i]? = some (.taking left urlList))
      (url : s.urlQueue[pick]? = some u) :
      Moves s i ({ s with urlQueue := s.urlQueue.eraseIdx pick }.setCall i (.filling left (urlList ++ [u])))

theorem moves_of_next {pick : ℕ} (h : s.next groupSize i pick = some s') : s.Moves i s' := by
  unfold next at h
  split at h
  · rename_i hcall
    obtain rfl := Option.some.inj h
    split_ifs with hq
    · exact .quiet hcall rfl rfl ⟨rfl, rfl⟩ ⟨rfl, rfl⟩ (by simp)
    · exact .sees hcall fun hnil => hq (List.length_eq_zero_iff.2 hnil)
  · rename_i hcall
    split at h
    · rename_i g rest hq
      obtain rfl := Option.some.inj h
      exact .pops hcall hq
    · rename_i hq
      obtain rfl := Option.some.inj h
      exact .throws hcall hq
  · rename_i hcall
    obtain rfl := Option.some.inj h
    split_ifs
    · exact .quiet hcall rfl rfl ⟨rfl, rfl⟩ ⟨rfl, rfl⟩ (by simp)
    · exact .quiet hcall rfl rfl ⟨rfl, rfl⟩ ⟨rfl, rfl⟩ (by simp [fill])
  · rename_i hcall
    obtain rfl := Option.some.inj h
    exact .quiet hcall rfl rfl ⟨rfl, rfl⟩ ⟨rfl, rfl⟩ (by simp [fill])
  · rename_i urlList hcall
    obtain rfl := Option.some.inj h
    split_ifs with hlen
    · exact .quiet hcall rfl rfl ⟨rfl, rfl⟩ ⟨rfl, rfl⟩ (by simp)
    · have hnil : urlList = [] := List.length_eq_zero_iff.1 (Nat.eq_zero_of_not_pos hlen)
      exact .quiet hcall rfl hnil.symm ⟨rfl, rfl⟩ ⟨rfl, rfl⟩ (by simp)
  · rename_i left urlList hcall
    obtain rfl := Option.some.inj h
    split_ifs with hq
    · exact .quiet hcall rfl rfl ⟨rfl, rfl⟩ ⟨rfl, rfl⟩ (by simp)
    · exact .looks hcall fun hnil => hq (List.isEmpty_iff.2 hnil)
  · rename_i hcall
    split at h
    · rename_i u hu
      obtain rfl := Option.some.inj h
      exact .takes hcall hu
    · exact nomatch h
  all_goals exact nomatch h

section handed

/-- What the calls have and what is queued is what was pushed and added, each as often as it was. -/
structure Accounted (s : TakeCalls) : Prop where
  groups : (s.calls.flatMap TakeCall.groups ++ s.urlGroupQueue).Perm s.pushed
  urls : (s.calls.flatMap TakeCall.urls ++ s.urlQueue).Perm (List.range s.added)

theorem Accounted.start : Accounted {} := ⟨List.Perm.refl _, List.Perm.refl _⟩

/-- What the calls have does not change. -/
theorem flatMap_same {f : TakeCall → List ℕ} (h : s.calls[i]? = some c) (c' : TakeCall) (hf : f c' = f c) :
    ((s.calls.set i c').flatMap f).Perm (s.calls.flatMap f) := by
  have hperm := flatMap_set_perm f h c'
  rw [hf] at hperm
  exact (List.perm_append_left_iff _).1 hperm

theorem Accounted.same (h : s.Accounted) (call : s.calls[i]? = some c) (c' : TakeCall)
    (groups : c'.groups = c.groups) (urls : c'.urls = c.urls) : (s.setCall i c').Accounted :=
  ⟨((flatMap_same call c' groups).append_right _).trans h.groups,
    ((flatMap_same call c' urls).append_right _).trans h.urls⟩

theorem Accounted.moves (h : s.Accounted) (hmoves : s.Moves i s') : s'.Accounted := by
  cases hmoves with
  | quiet call groups urls => exact h.same call _ groups urls
  | sees call => exact h.same call _ rfl rfl
  | throws call => exact h.same call _ rfl rfl
  | looks call => exact h.same call _ rfl rfl
  | @pops g rest call queue =>
    refine ⟨?_, ((flatMap_same call (.returned (some (.popped g))) rfl).append_right _).trans h.urls⟩
    have hgroups := h.groups
    have hset : ((s.calls.set i (.returned (some (.popped g)))).flatMap TakeCall.groups).Perm
        (g :: s.calls.flatMap TakeCall.groups) := flatMap_set_perm TakeCall.groups call _
    rw [queue] at hgroups
    exact (hset.append_right rest).trans (List.perm_middle.symm.trans hgroups)
  | @takes left pick u urlList call url =>
    refine ⟨((flatMap_same call (.filling left (urlList ++ [u])) rfl).append_right _).trans h.groups, ?_⟩
    obtain ⟨hpick, rfl⟩ := List.getElem?_eq_some_iff.1 url
    have hset := flatMap_set_perm TakeCall.urls call (.filling left (urlList ++ [s.urlQueue[pick]]))
    have hset' : ((s.calls.set i (.filling left (urlList ++ [s.urlQueue[pick]]))).flatMap TakeCall.urls).Perm
        (s.urlQueue[pick] :: s.calls.flatMap TakeCall.urls) := by
      refine (List.perm_append_left_iff urlList).1 (hset.trans ?_)
      rw [TakeCall.urls, List.append_assoc]
      rfl
    have hqueue := (List.getElem_cons_eraseIdx_perm hpick).append_left (s.calls.flatMap TakeCall.urls)
    exact (hset'.append_right _).trans ((List.perm_middle.symm.trans hqueue).trans h.urls)

/-- **One step.** -/
theorem Accounted.step (h : s.Accounted) (hstep : s.step groupSize a = some s') : s'.Accounted := by
  cases a with
  | push g =>
    obtain rfl := Option.some.inj hstep
    exact ⟨List.perm_middle.trans (h.groups.cons g), h.urls⟩
  | addUrl =>
    obtain rfl := Option.some.inj hstep
    refine ⟨h.groups, ?_⟩
    dsimp only
    rw [← List.append_assoc, List.range_succ]
    exact h.urls.append_right _
  | call =>
    obtain rfl := Option.some.inj hstep
    refine ⟨?_, ?_⟩
    · rw [List.flatMap_append]
      exact (List.append_nil (s.calls.flatMap TakeCall.groups)).symm ▸ h.groups
    · rw [List.flatMap_append]
      exact (List.append_nil (s.calls.flatMap TakeCall.urls)).symm ▸ h.urls
  | next i pick => exact h.moves (moves_of_next hstep)

/-- No URL is with two calls, and a group is with at most one for each time that it was pushed. -/
structure HandedOnce (s : TakeCalls) : Prop where
  urls : (s.calls.flatMap TakeCall.urls).Nodup
  groups : ∀ g, (s.calls.flatMap TakeCall.groups).count g ≤ s.pushed.count g

theorem Accounted.handedOnce (h : s.Accounted) : s.HandedOnce where
  urls := (List.nodup_append.1 (h.urls.nodup_iff.2 List.nodup_range)).1
  groups g := by
    have hcount := h.groups.count_eq g
    rw [List.count_append] at hcount
    omega

end handed

section enough

/-- The calls that have seen a group, and those that have seen a URL, and have not yet taken one. -/
def poppers (s : TakeCalls) : ℕ := s.calls.countP TakeCall.isPopping

def takers (s : TakeCalls) : ℕ := s.calls.countP TakeCall.isTaking

/-- There is an element for each call that has seen the queue not empty, and none has thrown. -/
structure Covered (s : TakeCalls) : Prop where
  poppers : s.poppers ≤ s.urlGroupQueue.length
  takers : s.takers ≤ s.urlQueue.length
  threw : TakeCall.threw ∉ s.calls

/-- A call that sees a queue not empty sees more elements than calls have seen before it and not yet
taken. -/
def Enough (s : TakeCalls) : TakeStep → Prop
  | .next i _ =>
    (s.calls[i]? = some .started → s.urlGroupQueue ≠ [] → s.poppers < s.urlGroupQueue.length) ∧
      ∀ left urlList, s.calls[i]? = some (.filling (left + 1) urlList) → s.urlQueue ≠ [] →
        s.takers < s.urlQueue.length
  | _ => True

instance (s : TakeCalls) (a : TakeStep) : Decidable (s.Enough a) :=
  match a with
  | .next i _ => decidable_of_iff ((s.calls[i]? = some .started → s.urlGroupQueue ≠ [] →
      s.poppers < s.urlGroupQueue.length) ∧ (s.calls[i]?.any TakeCall.looks = true → s.urlQueue ≠ [] →
        s.takers < s.urlQueue.length)) <| and_congr_right' <| by
    refine ⟨fun h left urlList hcall => h (by rw [hcall]; rfl), fun h hlooks => ?_⟩
    obtain ⟨c, hcall, hc⟩ := (Option.any_eq_true _ _).1 hlooks
    cases c with
    | filling left urlList =>
      cases left with
      | zero => exact nomatch hc
      | succ left => exact h left urlList hcall
    | _ => exact nomatch hc
  | .push _ | .addUrl | .call => .isTrue trivial

theorem poppers_set (h : s.calls[i]? = some c) (c' : TakeCall) :
    (s.setCall i c').poppers + c.isPopping.toNat = s.poppers + c'.isPopping.toNat :=
  countP_set_add TakeCall.isPopping h c'

theorem takers_set (h : s.calls[i]? = some c) (c' : TakeCall) :
    (s.setCall i c').takers + c.isTaking.toNat = s.takers + c'.isTaking.toNat :=
  countP_set_add TakeCall.isTaking h c'

theorem poppers_pos (h : s.calls[i]? = some .popping) : 0 < s.poppers :=
  List.countP_pos_iff.2 ⟨.popping, List.mem_of_getElem? h, rfl⟩

theorem threw_notMem_set {cs : List TakeCall} (h : TakeCall.threw ∉ cs) {c' : TakeCall} (hc : c' ≠ .threw) :
    TakeCall.threw ∉ cs.set i c' :=
  fun hmem => (List.mem_or_eq_of_mem_set hmem).elim h fun heq => hc heq.symm

theorem Covered.start : Covered {} := ⟨Nat.le_refl 0, Nat.le_refl 0, by simp⟩

theorem Covered.moves {pick : ℕ} (h : s.Covered) (hok : s.Enough (.next i pick)) (hmoves : s.Moves i s') :
    s'.Covered := by
  obtain ⟨hseen, hlooked⟩ := hok
  obtain ⟨hpoppers, htakers, hthrew⟩ := h
  cases hmoves with
  | @quiet c c' call groups urls popping taking threw =>
    have hp := poppers_set call c'
    have ht := takers_set call c'
    rw [popping.1, popping.2] at hp
    rw [taking.1, taking.2] at ht
    exact ⟨Nat.le_trans (Nat.le_of_eq hp) hpoppers, Nat.le_trans (Nat.le_of_eq ht) htakers,
      threw_notMem_set hthrew threw⟩
  | sees call queue =>
    have hp : (s.setCall i .popping).poppers = s.poppers + 1 := poppers_set call .popping
    have ht : (s.setCall i .popping).takers = s.takers := takers_set call .popping
    refine ⟨?_, Nat.le_trans (Nat.le_of_eq ht) htakers, threw_notMem_set hthrew (by simp)⟩
    rw [hp]
    exact hseen call queue
  | @pops g rest call queue =>
    have hp : (s.setCall i (.returned (some (.popped g)))).poppers + 1 = s.poppers := poppers_set call _
    have ht : (s.setCall i (.returned (some (.popped g)))).takers = s.takers := takers_set call _
    refine ⟨?_, Nat.le_trans (Nat.le_of_eq ht) htakers, threw_notMem_set hthrew (by simp)⟩
    rw [queue, List.length_cons, ← hp] at hpoppers
    exact Nat.le_of_succ_le_succ hpoppers
  | throws call queue =>
    -- the call that pops has an element
    have hpos := poppers_pos call
    rw [queue, List.length_nil] at hpoppers
    omega
  | @looks left urlList call queue =>
    have hp : (s.setCall i (.taking left urlList)).poppers = s.poppers := poppers_set call _
    have ht : (s.setCall i (.taking left urlList)).takers = s.takers + 1 := takers_set call _
    refine ⟨Nat.le_trans (Nat.le_of_eq hp) hpoppers, ?_, threw_notMem_set hthrew (by simp)⟩
    rw [ht]
    exact hlooked left urlList call queue
  | @takes left pick u urlList call url =>
    have hp : (s.setCall i (.filling left (urlList ++ [u]))).poppers = s.poppers := poppers_set call _
    have ht : (s.setCall i (.filling left (urlList ++ [u]))).takers + 1 = s.takers := takers_set call _
    refine ⟨Nat.le_trans (Nat.le_of_eq hp) hpoppers, ?_, threw_notMem_set hthrew (by simp)⟩
    obtain ⟨hpick, -⟩ := List.getElem?_eq_some_iff.1 url
    have hlength := List.length_eraseIdx_add_one hpick
    show (s.setCall i (.filling left (urlList ++ [u]))).takers ≤ (s.urlQueue.eraseIdx pick).length
    omega

/-- **One step.** -/
theorem Covered.step (h : s.Covered) (hok : s.Enough a) (hstep : s.step groupSize a = some s') : s'.Covered := by
  cases a with
  | push g =>
    obtain rfl := Option.some.inj hstep
    exact ⟨Nat.le_succ_of_le h.poppers, h.takers, h.threw⟩
  | addUrl =>
    obtain rfl := Option.some.inj hstep
    refine ⟨h.poppers, ?_, h.threw⟩
    dsimp only
    rw [List.length_append]
    exact Nat.le_add_right_of_le h.takers
  | call =>
    obtain rfl := Option.some.inj hstep
    have hp : (s.calls ++ [TakeCall.started]).countP TakeCall.isPopping = s.poppers := List.countP_append
    have ht : (s.calls ++ [TakeCall.started]).countP TakeCall.isTaking = s.takers := List.countP_append
    exact ⟨Nat.le_trans (Nat.le_of_eq hp) h.poppers, Nat.le_trans (Nat.le_of_eq ht) h.takers,
      by simpa using h.threw⟩
  | next i pick => exact h.moves hok (moves_of_next hstep)

end enough

/-- No call has thrown, and none that has seen `urlQueue` not empty is blocked. -/
def Safe (s : TakeCalls) : Prop :=
  TakeCall.threw ∉ s.calls ∧
    ∀ (i left : ℕ) (urlList : List ℕ), s.calls[i]? = some (.taking left urlList) → s.urlQueue ≠ []

theorem takers_pos {left : ℕ} {urlList : List ℕ} (h : s.calls[i]? = some (.taking left urlList)) : 0 < s.takers :=
  List.countP_pos_iff.2 ⟨TakeCall.taking left urlList, List.mem_of_getElem? h, rfl⟩

theorem Covered.safe (h : s.Covered) : s.Safe := by
  refine ⟨h.threw, fun i left urlList hcall hnil => ?_⟩
  have hpos := takers_pos hcall
  have hle := h.takers
  rw [hnil, List.length_nil] at hle
  exact absurd hpos (Nat.not_lt.2 hle)

section exactness

/-- The run can go on to a call that throws or is blocked. -/
def CanFail (groupSize : ℤ) (s : TakeCalls) : Prop := ∃ t, Reaches (step groupSize) anyStep s t ∧ ¬ t.Safe

theorem CanFail.of_step (hstep : s.step groupSize a = some s') (h : CanFail groupSize s') : CanFail groupSize s := by
  obtain ⟨t, ht, hfail⟩ := h
  exact ⟨t, (Reaches.one trivial hstep).trans ht, hfail⟩

theorem exists_popping (h : 0 < s.poppers) : ∃ i : ℕ, s.calls[i]? = some .popping := by
  obtain ⟨c, hmem, hc⟩ := List.countP_pos_iff.1 h
  obtain rfl : c = .popping := of_decide_eq_true hc
  exact List.mem_iff_getElem?.1 hmem

theorem exists_taking (h : 0 < s.takers) : ∃ (i left : ℕ) (urlList : List ℕ), s.calls[i]? = some (.taking left urlList) := by
  obtain ⟨c, hmem, hc⟩ := List.countP_pos_iff.1 h
  obtain ⟨i, hcall⟩ := List.mem_iff_getElem?.1 hmem
  cases c with
  | taking left urlList => exact ⟨i, left, urlList, hcall⟩
  | _ => exact nomatch hc

/-- More calls will pop than there are groups: they pop, and the first that finds none throws. -/
theorem canFail_of_poppers (h : s.urlGroupQueue.length < s.poppers) : CanFail groupSize s := by
  induction hq : s.urlGroupQueue generalizing s with
  | nil =>
    obtain ⟨i, hcall⟩ := exists_popping (Nat.zero_lt_of_lt h)
    have hstep : s.step groupSize (.next i 0) = some (s.setCall i .threw) := by
      simp only [TakeCalls.step, next, hcall, hq]
    obtain ⟨hi, -⟩ := List.getElem?_eq_some_iff.1 hcall
    exact ⟨_, Reaches.one trivial hstep, fun hsafe => hsafe.1 (List.mem_set hi _)⟩
  | cons g rest ih =>
    obtain ⟨i, hcall⟩ := exists_popping (Nat.zero_lt_of_lt h)
    have hstep : s.step groupSize (.next i 0) =
        some ({ s with urlGroupQueue := rest }.setCall i (.returned (some (.popped g)))) := by
      simp only [TakeCalls.step, next, hcall, hq]
    have hp : (s.setCall i (.returned (some (.popped g)))).poppers + 1 = s.poppers := poppers_set hcall _
    refine CanFail.of_step hstep (ih ?_ rfl)
    rw [hq, List.length_cons] at h
    show rest.length < (s.setCall i (.returned (some (.popped g)))).poppers
    omega

/-- More calls will take than there are URLs: they take, and then one is blocked. -/
theorem canFail_of_takers (h : s.urlQueue.length < s.takers) : CanFail groupSize s := by
  induction hn : s.urlQueue.length generalizing s with
  | zero =>
    obtain ⟨i, left, urlList, hcall⟩ := exists_taking (Nat.zero_lt_of_lt h)
    exact ⟨s, .start, fun hsafe => hsafe.2 i left urlList hcall (List.length_eq_zero_iff.1 hn)⟩
  | succ n ih =>
    obtain ⟨i, left, urlList, hcall⟩ := exists_taking (Nat.zero_lt_of_lt h)
    have hpos : 0 < s.urlQueue.length := by omega
    have hstep : s.step groupSize (.next i 0) = some ({ s with urlQueue := s.urlQueue.eraseIdx 0 }.setCall i
        (.filling left (urlList ++ [s.urlQueue[0]]))) := by
      simp only [TakeCalls.step, next, hcall, List.getElem?_eq_getElem hpos]
    have ht : (s.setCall i (.filling left (urlList ++ [s.urlQueue[0]]))).takers + 1 = s.takers := takers_set hcall _
    have hlength := List.length_eraseIdx_add_one hpos
    refine CanFail.of_step hstep (ih ?_ ?_)
    · show (s.urlQueue.eraseIdx 0).length < (s.setCall i (.filling left (urlList ++ [s.urlQueue[0]]))).takers
      omega
    · show (s.urlQueue.eraseIdx 0).length = n
      omega

theorem canFail_of_not_enough (hok : ¬ s.Enough a) (hstep : s.step groupSize a = some s') : CanFail groupSize s' := by
  cases a with
  | push g => exact absurd trivial hok
  | addUrl => exact absurd trivial hok
  | call => exact absurd trivial hok
  | next i pick =>
    simp only [Enough, not_and_or, not_forall, Nat.not_lt] at hok
    rcases hok with ⟨hcall, hq, hle⟩ | ⟨left, urlList, hcall, hq, hle⟩
    · have hlen : s.urlGroupQueue.length ≠ 0 := fun hzero => hq (List.length_eq_zero_iff.1 hzero)
      simp only [TakeCalls.step, next, hcall, if_neg hlen] at hstep
      obtain rfl := Option.some.inj hstep
      have hp : (s.setCall i .popping).poppers = s.poppers + 1 := poppers_set hcall .popping
      refine canFail_of_poppers ?_
      rw [hp]
      exact Nat.lt_succ_of_le hle
    · have hempty : s.urlQueue.isEmpty = false := List.isEmpty_eq_false_iff.2 hq
      simp only [TakeCalls.step, next, hcall, hempty] at hstep
      obtain rfl := Option.some.inj hstep
      have ht : (s.setCall i (.taking left urlList)).takers = s.takers + 1 := takers_set hcall _
      refine canFail_of_takers ?_
      show s.urlQueue.length < (s.setCall i (.taking left urlList)).takers
      rw [ht]
      exact Nat.lt_succ_of_le hle

end exactness

/-- **Calls of `takeUrlGroup` beside each other.** In every run no URL is handed to two
calls, and no group that was pushed once. No call throws or is blocked in the runs in which each call that sees a queue not
empty sees more elements than calls have seen and not yet taken; and after a step at which one does not,
the run can go on to a call that throws or is blocked. -/
theorem takeUrlGroup_safe (groupSize : ℤ) :
    (∀ s, Reaches (step groupSize) anyStep {} s → s.HandedOnce) ∧
      (∀ s, Reaches (step groupSize) Enough {} s → s.Safe) ∧
      ∀ (s : TakeCalls) (a : TakeStep) (s' : TakeCalls), ¬ s.Enough a → s.step groupSize a = some s' →
        CanFail groupSize s' := by
  refine ⟨fun s h => ?_, fun s h => ?_, fun s a s' => canFail_of_not_enough⟩
  · have haccounted : s.Accounted := h.invariant Accounted.start fun _ _ _ hs _ hstep => hs.step hstep
    exact haccounted.handedOnce
  · have hcovered : s.Covered := h.invariant Covered.start fun _ _ _ hs hok hstep => hs.step hok hstep
    exact hcovered.safe

/-- Two calls see two groups, and two more two URLs, before one of them takes any. -/
def twoBeside : List TakeStep :=
  [.push 7, .push 8, .call, .call, .next 0 0, .next 1 0, .next 1 0, .next 0 0, .addUrl, .addUrl, .call, .call,
    .next 2 0, .next 3 0, .next 2 0, .next 3 0, .next 2 0, .next 3 0, .next 3 0, .next 2 0, .next 2 0, .next 3 0]

theorem takeUrlGroup_safe_beside : ∃ s, run (guarded (step 1) Enough) {} twoBeside = some s ∧ s.calls =
    [.returned (some (.popped 7)), .returned (some (.popped 8)), .returned (some (.made [1])),
      .returned (some (.made [0]))] ∧ s.Safe := by
  obtain ⟨s, hs, hcalls⟩ : ∃ s, run (guarded (step 1) Enough) {} twoBeside = some s ∧ s.calls =
    [.returned (some (.popped 7)), .returned (some (.popped 8)), .returned (some (.made [1])),
      .returned (some (.made [0]))] := ⟨_, rfl, rfl⟩
  exact ⟨s, hs, hcalls, (takeUrlGroup_safe 1).2.1 s (.of_guarded hs)⟩

/-- Two calls see the only group before one of them pops it. -/
def bothSee : List TakeStep := [.push 7, .call, .call, .next 0 0, .next 1 0, .next 0 0, .next 1 0]

/-- The second throws. -/
theorem bothSee_throws : ∃ s, run (step 1) {} bothSee = some s ∧ ¬ s.Safe :=
  ⟨_, rfl, fun hsafe => hsafe.1 (by decide)⟩

end TakeCalls

end CaptureHPC
