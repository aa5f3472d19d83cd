import CaptureHPC.Proof.TakeCalls
import CaptureHPC.Spec.GroupCalls

/-!
# Where groups come from, whatever the order of the calls

* `takes_of_step`: the calls of `takeUrlGroup` and the queues move as they do by themselves, so their URLs and
  groups stay accounted for.
* `urls_conserved`: each URL that was added is in the queue, in the hands of a call, or in a first group, once.
* `group_is_part`: a group is what halvings leave of a first group, and there are at most as many of them as the
  logarithm of that group's length says.
-/

namespace CaptureHPC

open Lib

namespace TakeCall

/-- The URLs that a call has taken and not yet made a group of. -/
def inHand : TakeCall → List ℕ
  | filling _ urlList | taking _ urlList => urlList
  | _ => []

/-- The URLs of the group that a call has made. -/
def madeOf : TakeCall → List ℕ
  | returned (some (.made urlList)) => urlList
  | _ => []

theorem urls_eq (c : TakeCall) : c.urls = c.inHand ++ c.madeOf := by
  cases c with
  | returned urlGroup =>
    cases urlGroup with
    | none => rfl
    | some taken => cases taken <;> rfl
  | filling left urlList => exact (List.append_nil urlList).symm
  | taking left urlList => exact (List.append_nil urlList).symm
  | _ => rfl

end TakeCall

/-- A call that goes on was under way, and only it changes. -/
theorem TakeCalls.next_calls {groupSize : ℤ} {s s' : TakeCalls} {i pick : ℕ} (h : s.next groupSize i pick = some s') :
    ∃ c c', s.calls[i]? = some c ∧ (∀ urlGroup, c ≠ .returned urlGroup) ∧ s'.calls = s.calls.set i c' ∧
      s'.pushed = s.pushed ∧ s'.added = s.added := by
  unfold next at h
  split at h
  case h_2 hcall =>
    split at h
    all_goals
      obtain rfl := Option.some.inj h
      exact ⟨_, _, hcall, by simp, rfl, rfl, rfl⟩
  case h_7 hcall =>
    split at h
    · obtain rfl := Option.some.inj h
      exact ⟨_, _, hcall, by simp, rfl, rfl, rfl⟩
    · exact nomatch h
  case h_8 | h_9 | h_10 => exact nomatch h
  all_goals
    rename_i hcall
    obtain rfl := Option.some.inj h
    exact ⟨_, _, hcall, by simp, rfl, rfl, rfl⟩

/-- The group that a call has not done with. -/
def GroupCall.group : GroupCall → Option ℕ
  | started g _ | written g | counting g | counted g _ | ifVisiting g | ifVisited g | ifError g | dividing g _
  | ifRetry g | retrying g => some g
  | returned _ => none

namespace GroupCalls

variable {groupSize : ℤ} {s s' : GroupCalls} {a : GroupStep} {g f i j k : ℕ}

/-! ## What a step can do -/

/-- **What a call of `setUrlGroupState` for `g` does next**, and where it is then. -/
inductive Goes (s : GroupCalls) (g : ℕ) : GroupCall → GroupCalls → GroupCall → Prop
  | writes (newState : UrlGroupState) :
      Goes s g (.started g newState) (s.setGroup g { s.group g with urlGroupState := newState }) (.written g)
  | failing : Goes s g (.written g) s (.counting g)
  | another (state : (s.group g).urlGroupState ≠ .error) : Goes s g (.written g) s (.ifVisiting g)
  | reads : Goes s g (.counting g) s (.counted g (s.group g).errorCount)
  | counts (n : ℕ) : Goes s g (.counted g n) (s.setGroup g { s.group g with errorCount := n + 1 }) (.ifVisiting g)
  | notVisiting : Goes s g (.ifVisiting g) s (.ifVisited g)
  | notVisited : Goes s g (.ifVisited g) s (.ifError g)
  | failed (state : (s.group g).urlGroupState = .error) : Goes s g (.ifError g) s (.ifRetry g)
  | splits {c : GroupCall} (call : c = .ifVisited g ∨ c = .ifError g) (size : 1 < (s.group g).urlList.length) :
      Goes s g c s (.dividing g false)
  | divides (second : Bool) : Goes s g (.dividing g second)
      ((s.new (half second (s.group g).urlList) (.half g second)).push s.size)
      (if second then .returned g else .dividing g true)
  | retries (errors : (s.group g).errorCount ≤ 1) : Goes s g (.ifRetry g) s (.retrying g)
  | putsBack : Goes s g (.retrying g) { s.push g with putBack := g :: s.putBack } (.returned g)
  | ends {c : GroupCall} (call : c = .ifVisiting g ∨ c = .ifVisited g ∨ c = .ifError g ∨ c = .ifRetry g) :
      Goes s g c s (.returned g)

theorem goes_of_update {dacMalicious leaves : Bool} (h : s.update j dacMalicious leaves = some s') :
    ∃ g c t c', s.calls[j]? = some c ∧ s.Goes g c t c' ∧ s' = t.setCall j c' := by
  have hdivides : ∀ g, s.divides g dacMalicious = true → 1 < (s.group g).urlList.length := fun g hg =>
    of_decide_eq_true (Bool.and_eq_true_iff.1 hg).2
  unfold update at h
  split at h
  case h_1 g newState hcall => exact ⟨g, _, _, _, hcall, .writes newState, (Option.some.inj h).symm⟩
  case h_2 g hcall =>
    obtain rfl := Option.some.inj h
    split_ifs with herror
    · exact ⟨g, _, _, _, hcall, .failing, rfl⟩
    · exact ⟨g, _, _, _, hcall, .another herror, rfl⟩
  case h_3 g hcall => exact ⟨g, _, _, _, hcall, .reads, (Option.some.inj h).symm⟩
  case h_4 g n hcall => exact ⟨g, _, _, _, hcall, .counts n, (Option.some.inj h).symm⟩
  case h_5 g hcall =>
    obtain rfl := Option.some.inj h
    split_ifs
    · exact ⟨g, _, _, _, hcall, .ends (.inl rfl), rfl⟩
    · exact ⟨g, _, _, _, hcall, .notVisiting, rfl⟩
  case h_6 g hcall =>
    obtain rfl := Option.some.inj h
    split_ifs with hvisited hdiv
    · exact ⟨g, _, _, _, hcall, .splits (.inl rfl) (hdivides g hdiv), rfl⟩
    · exact ⟨g, _, _, _, hcall, .ends (.inr (.inl rfl)), rfl⟩
    · exact ⟨g, _, _, _, hcall, .notVisited, rfl⟩
  case h_7 g hcall =>
    obtain rfl := Option.some.inj h
    split_ifs with herror hdiv
    · exact ⟨g, _, _, _, hcall, .splits (.inr rfl) (hdivides g hdiv), rfl⟩
    · exact ⟨g, _, _, _, hcall, .failed herror, rfl⟩
    · exact ⟨g, _, _, _, hcall, .ends (.inr (.inr (.inl rfl))), rfl⟩
  case h_8 g second hcall => exact ⟨g, _, _, _, hcall, .divides second, (Option.some.inj h).symm⟩
  case h_9 g hcall =>
    obtain rfl := Option.some.inj h
    split_ifs with hretries
    · exact ⟨g, _, _, _, hcall, .retries hretries.2, rfl⟩
    · exact ⟨g, _, _, _, hcall, .ends (.inr (.inr (.inr rfl))), rfl⟩
  case h_10 g hcall => exact ⟨g, _, _, _, hcall, .putsBack, (Option.some.inj h).symm⟩
  case h_11 | h_12 => exact nomatch h

/-- **What a step can do.** -/
inductive Does (groupSize : ℤ) (s : GroupCalls) : GroupStep → GroupCalls → Prop
  | finds (url : Url) : Does groupSize s (.inUrlQueue url) s
  | asks (url : Url) (free : s.inUrlQueue url = false) :
      Does groupSize s (.inUrlQueue url) { s with adding := s.adding ++ [url] }
  | adds (k : ℕ) (url : Url) (asked : s.adding[k]? = some url) :
      Does groupSize s (.addUrl k) { s with
        takes := { s.takes with urlQueue := s.takes.urlQueue ++ [s.takes.added], added := s.takes.added + 1 }
        urls := s.urls ++ [url]
        adding := s.adding.eraseIdx k }
  | begins : Does groupSize s .takeUrlGroup { s with takes := { s.takes with calls := s.takes.calls ++ [.started] } }
  | takes (i pick : ℕ) (t : TakeCalls) (next : s.takes.next groupSize i pick = some t)
      (call : ∀ urlList, t.calls[i]? ≠ some (.returned (some (.made urlList)))) :
      Does groupSize s (.take i pick) { s with takes := t }
  | makes (i pick : ℕ) (t : TakeCalls) (urlList : List ℕ) (next : s.takes.next groupSize i pick = some t)
      (call : t.calls[i]? = some (.returned (some (.made urlList)))) :
      Does groupSize s (.take i pick) ({ s with takes := t }.new urlList (.call i))
  | calls (g : ℕ) (newState : UrlGroupState) (taken : 0 < s.turns g) :
      Does groupSize s (.setUrlGroupState g newState) { s with calls := s.calls ++ [.started g newState] }
  | goes (j : ℕ) (dacMalicious leaves : Bool) {g : ℕ} {c c' : GroupCall} {t : GroupCalls} (call : s.calls[j]? = some c)
      (goes : s.Goes g c t c') : Does groupSize s (.update j dacMalicious leaves) (t.setCall j c')

theorem does_of_step (h : s.step groupSize a = some s') : s.Does groupSize a s' := by
  cases a with
  | inUrlQueue url =>
    obtain rfl := Option.some.inj h
    split_ifs with hqueue
    · exact .finds url
    · exact .asks url (eq_false_of_ne_true hqueue)
  | addUrl k =>
    simp only [step] at h
    split at h
    · rename_i url hasked
      obtain rfl := Option.some.inj h
      exact .adds k url hasked
    · exact nomatch h
  | takeUrlGroup =>
    obtain rfl := Option.some.inj h
    exact .begins
  | take i pick =>
    obtain ⟨t, ht, rfl⟩ := Option.map_eq_some_iff.1 h
    unfold returnGroup
    split
    · rename_i urlList hcall
      exact .makes i pick t urlList ht hcall
    · rename_i hcall
      exact .takes i pick t ht hcall
  | setUrlGroupState g newState =>
    simp only [step] at h
    split_ifs at h with hturns
    obtain rfl := Option.some.inj h
    exact .calls g newState hturns
  | update j dacMalicious leaves =>
    obtain ⟨g, c, t, c', hcall, hgoes, rfl⟩ := goes_of_update h
    exact .goes j dacMalicious leaves hcall hgoes

/-- The calls of `takeUrlGroup` and the queues move as they do by themselves. -/
theorem takes_of_step (h : s.step groupSize a = some s') :
    s'.takes = s.takes ∨ ∃ b, s.takes.step groupSize b = some s'.takes := by
  cases does_of_step h with
  | finds | asks | calls => exact .inl rfl
  | adds => exact .inr ⟨.addUrl, rfl⟩
  | begins => exact .inr ⟨.call, rfl⟩
  | takes i pick t next => exact .inr ⟨.next i pick, next⟩
  | makes i pick t urlList next => exact .inr ⟨.next i pick, next⟩
  | goes j dacMalicious leaves hcall hgoes =>
    cases hgoes with
    | divides second => exact .inr ⟨.push s.size, rfl⟩
    | putsBack => exact .inr ⟨.push _, rfl⟩
    | _ => exact .inl rfl

theorem accounted_of_reaches (h : Reaches (step groupSize) anyStep {} s) : s.takes.Accounted := by
  refine h.invariant (P := fun s => s.takes.Accounted) TakeCalls.Accounted.start fun s a s' hs _ hstep => ?_
  obtain hsame | ⟨b, hb⟩ := takes_of_step hstep
  · rwa [hsame]
  · exact hs.step hb

/-! ## The groups that there are -/

/-- The URLs of a group. -/
def urlsOf (s : GroupCalls) (g : ℕ) : List ℕ := (s.group g).urlList

/-- A call of `takeUrlGroup` has made the group. -/
def IsFirst (s : GroupCalls) (g : ℕ) : Bool :=
  match (s.group g).source with
  | .call _ => true
  | .half .. => false

def firstGroups (s : GroupCalls) : List ℕ := (List.range s.size).filter s.IsFirst

theorem Goes.group {c c' : GroupCall} {t : GroupCalls} (h : s.Goes g c t c') :
    c.group = some g ∧ (c'.group = some g ∨ c'.group = none) := by
  cases h with
  | divides second => cases second <;> simp [GroupCall.group]
  | splits call => rcases call with rfl | rfl <;> simp [GroupCall.group]
  | ends call => rcases call with rfl | rfl | rfl | rfl <;> simp [GroupCall.group]
  | putsBack => exact ⟨rfl, .inr rfl⟩
  | _ => exact ⟨rfl, .inl rfl⟩

/-- Every group was made once, by a call or as the half of an older group of two URLs or more. -/
structure Made (s : GroupCalls) : Prop where
  added : s.takes.added = s.urls.length
  urls : (s.takes.calls.flatMap TakeCall.madeOf).Perm (s.firstGroups.flatMap s.urlsOf)
  halves : ∀ g < s.size, ∀ h b, (s.group g).source = .half h b →
    h < g ∧ 1 < (s.urlsOf h).length ∧ s.urlsOf g = half b (s.urlsOf h)
  calls : ∀ c ∈ s.calls, ∀ g, c.group = some g → g < s.size ∧ ∀ b, c = .dividing g b → 1 < (s.urlsOf g).length
  pushed : ∀ g, s.takes.pushed.count g = s.putBack.count g + if g < s.size ∧ s.IsFirst g = false then 1 else 0
  putBack : ∀ g ∈ s.putBack, g < s.size

theorem Made.start : Made {} where
  added := rfl
  urls := List.Perm.refl _
  halves _ hg := absurd hg (Nat.not_lt_zero _)
  calls _ hc := absurd hc List.not_mem_nil
  pushed _ := rfl
  putBack _ hg := absurd hg List.not_mem_nil

/-- The groups are the same ones. -/
theorem Made.same (hs : s.Made) (size : s'.size = s.size) (list : s'.urlsOf = s.urlsOf)
    (source : ∀ g, (s'.group g).source = (s.group g).source) (calls : s'.calls = s.calls)
    (made : (s'.takes.calls.flatMap TakeCall.madeOf).Perm (s.takes.calls.flatMap TakeCall.madeOf))
    (added : s'.takes.added = s'.urls.length) (pushed : s'.takes.pushed = s.takes.pushed)
    (putBack : s'.putBack = s.putBack) : s'.Made := by
  have hfirst : s'.IsFirst = s.IsFirst := funext fun g => by unfold IsFirst; rw [source]
  have hfirsts : s'.firstGroups = s.firstGroups := by unfold firstGroups; rw [size, hfirst]
  refine ⟨added, ?_, ?_, ?_, ?_, ?_⟩
  · rw [hfirsts, list]
    exact made.trans hs.urls
  · rw [size, list]
    exact fun g hg h b hsource => hs.halves g hg h b ((source g).symm.trans hsource)
  · rw [calls, size, list]
    exact hs.calls
  · rw [pushed, putBack, size, hfirst]
    exact hs.pushed
  · rw [putBack, size]
    exact hs.putBack

/-- A call goes on. -/
theorem Made.setCall (hs : s.Made) {c c' : GroupCall} (hcall : s.calls[j]? = some c)
    (hgroup : c'.group = c.group ∨ c'.group = none) (hlong : ∀ g b, c' = .dividing g b → 1 < (s.urlsOf g).length) :
    (s.setCall j c').Made := by
  refine ⟨hs.added, hs.urls, hs.halves, fun d hd g hg => ?_, hs.pushed, hs.putBack⟩
  rcases List.mem_or_eq_of_mem_set hd with hd | rfl
  · exact hs.calls d hd g hg
  · rcases hgroup with hsame | hnone
    · exact ⟨(hs.calls c (List.mem_of_getElem? hcall) g (hsame ▸ hg)).1, hlong g⟩
    · rw [hnone] at hg
      exact nomatch hg

section new

variable {urlList : List ℕ} {source : GroupSource}

/-- The groups that there are stay as they are. -/
theorem new_group (hg : g < s.size) : (s.new urlList source).group g = s.group g :=
  Function.update_of_ne hg.ne _ _

theorem new_group_size : (s.new urlList source).group s.size = { urlList := urlList, source := source } :=
  Function.update_self _ _ _

theorem new_urlsOf (hg : g < s.size) : (s.new urlList source).urlsOf g = s.urlsOf g := by
  unfold urlsOf
  rw [new_group hg]

theorem new_firstGroups (s : GroupCalls) (urlList : List ℕ) (source : GroupSource) :
    (s.new urlList source).firstGroups = s.firstGroups ++ [s.size].filter (s.new urlList source).IsFirst := by
  show (List.range (s.size + 1)).filter _ = _
  rw [List.range_succ, List.filter_append]
  refine congrArg (· ++ _) (List.filter_congr fun g hg => ?_)
  unfold IsFirst
  rw [new_group (List.mem_range.1 hg)]

theorem new_isFirst (hg : g < s.size) : (s.new urlList source).IsFirst g = s.IsFirst g := by
  unfold IsFirst
  rw [new_group hg]

theorem isFirst_new_size : (s.new urlList source).IsFirst s.size =
    match source with
    | .call _ => true
    | .half .. => false := by
  unfold IsFirst
  rw [new_group_size]

/-- What is known of the groups that there are stays known. -/
theorem Made.new_halves (hs : s.Made) (hnew : ∀ h b, source = .half h b →
      h < s.size ∧ 1 < (s.urlsOf h).length ∧ urlList = half b (s.urlsOf h)) (hg : g < s.size + 1) {h : ℕ} {b : Bool}
    (hsource : ((s.new urlList source).group g).source = .half h b) :
    h < g ∧ 1 < ((s.new urlList source).urlsOf h).length ∧
      (s.new urlList source).urlsOf g = half b ((s.new urlList source).urlsOf h) := by
  obtain hg | rfl : g < s.size ∨ g = s.size := Nat.lt_succ_iff_lt_or_eq.1 hg
  · rw [new_group hg] at hsource
    obtain ⟨hlt, hlong, hhalf⟩ := hs.halves g hg h b hsource
    rw [new_urlsOf hg, new_urlsOf (hlt.trans hg)]
    exact ⟨hlt, hlong, hhalf⟩
  · rw [new_group_size] at hsource
    obtain ⟨hlt, hlong, hhalf⟩ := hnew h b hsource
    have hself : (s.new urlList source).urlsOf s.size = urlList := by
      unfold urlsOf
      rw [new_group_size]
    rw [hself, new_urlsOf hlt]
    exact ⟨hlt, hlong, hhalf⟩

theorem Made.new_calls (hs : s.Made) {c : GroupCall} (hc : c ∈ s.calls) (hg : c.group = some g) :
    g < s.size + 1 ∧ ∀ b, c = .dividing g b → 1 < ((s.new urlList source).urlsOf g).length := by
  obtain ⟨hlt, hlong⟩ := hs.calls c hc g hg
  rw [new_urlsOf hlt]
  exact ⟨Nat.lt_succ_of_lt hlt, hlong⟩

theorem new_flatMap : s.firstGroups.flatMap (s.new urlList source).urlsOf = s.firstGroups.flatMap s.urlsOf :=
  List.flatMap_congr fun _ hg => new_urlsOf (List.mem_range.1 (List.mem_filter.1 hg).1)

/-- A group that is not there was never pushed. -/
theorem Made.unmade (hs : s.Made) (hg : s.size ≤ g) : s.putBack.count g = 0 :=
  List.count_eq_zero.2 fun hmem => absurd (hs.putBack g hmem) (Nat.not_lt.2 hg)

/-- A call of `takeUrlGroup` makes a group. -/
theorem Made.first (hs : s.Made) {t : TakeCalls}
    (hmade : (t.calls.flatMap TakeCall.madeOf).Perm (urlList ++ s.takes.calls.flatMap TakeCall.madeOf))
    (hadded : t.added = s.takes.added) (hpushed : t.pushed = s.takes.pushed) :
    ({ s with takes := t }.new urlList (.call i)).Made := by
  have hlast : (s.new urlList (.call i)).IsFirst s.size = true := isFirst_new_size
  refine ⟨hadded.trans hs.added, ?_, fun g hg h b => ?_, fun c hc g hg => ?_, fun g => ?_, fun g hg => ?_⟩
  · show (t.calls.flatMap _).Perm ((s.new urlList (.call i)).firstGroups.flatMap (s.new urlList (.call i)).urlsOf)
    have hself : (s.new urlList (.call i)).urlsOf s.size = urlList := by
      unfold urlsOf
      rw [new_group_size]
    rw [new_firstGroups, List.filter_singleton, hlast, List.flatMap_append, new_flatMap]
    refine hmade.trans (List.perm_append_comm.trans (hs.urls.append ?_))
    rw [cond_true, List.flatMap_singleton, hself]
  · exact hs.new_halves (fun _ _ hsource => by cases hsource) hg
  · exact hs.new_calls hc hg
  · show t.pushed.count g = s.putBack.count g +
      if g < s.size + 1 ∧ (s.new urlList (.call i)).IsFirst g = false then 1 else 0
    rw [hpushed, hs.pushed]
    refine congrArg _ (if_congr ?_ rfl rfl)
    obtain hlt | rfl | hgt := Nat.lt_trichotomy g s.size
    · rw [new_isFirst hlt]
      exact and_congr_left' ⟨Nat.lt_succ_of_lt, fun _ => hlt⟩
    · rw [hlast]
      simp
    · omega
  · exact Nat.lt_succ_of_lt (hs.putBack g hg)

/-- A half of a group is made and pushed. -/
theorem Made.half (hs : s.Made) (hg : g < s.size) (hlong : 1 < (s.urlsOf g).length) (b : Bool) :
    ((s.new (half b (s.urlsOf g)) (.half g b)).push s.size).Made := by
  have hlast : (s.new (Lib.half b (s.urlsOf g)) (.half g b)).IsFirst s.size = false := isFirst_new_size
  refine ⟨hs.added, ?_, fun i hi h c hsource => ?_, fun c hc i hi => ?_, fun i => ?_, fun i hi => ?_⟩
  · show (s.takes.calls.flatMap _).Perm ((s.new _ (.half g b)).firstGroups.flatMap (s.new _ (.half g b)).urlsOf)
    rw [new_firstGroups, List.filter_singleton, hlast, List.flatMap_append, new_flatMap]
    exact hs.urls.trans (List.append_nil _ ▸ List.Perm.refl _)
  · refine hs.new_halves (fun h c hsource => ?_) hi hsource
    obtain ⟨rfl, rfl⟩ := GroupSource.half.inj hsource
    exact ⟨hg, hlong, rfl⟩
  · exact hs.new_calls hc hi
  · show (s.size :: s.takes.pushed).count i = s.putBack.count i +
      if i < s.size + 1 ∧ (s.new _ (.half g b)).IsFirst i = false then 1 else 0
    rw [List.count_cons, hs.pushed]
    obtain hlt | rfl | hgt := Nat.lt_trichotomy i s.size
    · rw [new_isFirst hlt]
      simp [hlt, Nat.lt_succ_of_lt hlt, hlt.ne']
    · rw [hlast]
      simp
    · have hne : ¬ i < s.size + 1 := by omega
      simp [hgt.ne, Nat.lt_asymm hgt, hne]
  · exact Nat.lt_succ_of_lt (hs.putBack i hi)

end new

/-- What a step of a call of `takeUrlGroup` does to the groups that calls have made. -/
theorem madeOf_next {t t' : TakeCalls} {pick : ℕ} (h : t.next groupSize i pick = some t') :
    ((t'.calls.flatMap TakeCall.madeOf).Perm ((t'.calls[i]?.elim [] TakeCall.madeOf) ++ t.calls.flatMap TakeCall.madeOf)) ∧
      t'.added = t.added ∧ t'.pushed = t.pushed := by
  obtain ⟨c, c', hcall, hgoing, hcalls, hpushed, hadded⟩ := TakeCalls.next_calls h
  obtain ⟨hi, -⟩ := List.getElem?_eq_some_iff.1 hcall
  have hnone : c.madeOf = [] := by
    cases c with
    | returned urlGroup => exact absurd rfl (hgoing urlGroup)
    | _ => rfl
  have hperm := flatMap_set_perm TakeCall.madeOf hcall c'
  rw [hnone, List.nil_append] at hperm
  rw [hcalls, List.getElem?_set_self hi]
  exact ⟨hperm, hadded, hpushed⟩

theorem count_popped (g : ℕ) (calls : List TakeCall) :
    calls.count (.returned (some (.popped g))) = (calls.flatMap TakeCall.groups).count g := by
  induction calls with
  | nil => rfl
  | cons c calls ih =>
    rw [List.count_cons, List.flatMap_cons, List.count_append, ih, Nat.add_comm]
    refine congrArg (· + _) ?_
    cases c with
    | returned urlGroup =>
      cases urlGroup with
      | none => rfl
      | some taken =>
        cases taken with
        | popped h => simp [TakeCall.groups, List.count_singleton]
        | made urlList => rfl
    | _ => rfl

/-- A group that a call has returned is there. -/
theorem Made.lt_of_turns (hs : s.Made) (ha : s.takes.Accounted) (h : 0 < s.turns g) : g < s.size := by
  by_contra hge
  have hcount := ha.groups.count_eq g
  rw [List.count_append, hs.pushed, hs.unmade (Nat.not_lt.1 hge), if_neg fun hlt => hge hlt.1, ← count_popped] at hcount
  unfold turns at h
  rw [if_neg hge] at h
  omega

/-- **One operation of a call of `setUrlGroupState`.** -/
theorem Made.goes (hs : s.Made) {c c' : GroupCall} {t : GroupCalls} (hcall : s.calls[j]? = some c)
    (hgoes : s.Goes g c t c') : (t.setCall j c').Made := by
  obtain ⟨hgroup, hgroup'⟩ := hgoes.group
  rw [← hgroup] at hgroup'
  obtain ⟨hg, hlong⟩ := hs.calls c (List.mem_of_getElem? hcall) g hgroup
  have hset : ∀ x : CalledGroup, x.urlList = (s.group g).urlList → x.source = (s.group g).source →
      (s.setGroup g x).Made := fun x hlist hsource => by
    refine hs.same rfl (funext fun i => ?_) (fun i => ?_) rfl (.refl _) hs.added rfl rfl
    · by_cases hi : i = g
      · rw [hi]
        exact (congrArg CalledGroup.urlList (Function.update_self g x s.group)).trans hlist
      · exact congrArg CalledGroup.urlList (Function.update_of_ne hi _ _)
    · by_cases hi : i = g
      · rw [hi]
        exact (congrArg CalledGroup.source (Function.update_self g x s.group)).trans hsource
      · exact congrArg CalledGroup.source (Function.update_of_ne hi _ _)
  cases hgoes with
  | writes newState =>
    exact (hset { s.group g with urlGroupState := newState } rfl rfl).setCall hcall hgroup' (fun _ _ hd => nomatch hd)
  | counts n =>
    exact (hset { s.group g with errorCount := n + 1 } rfl rfl).setCall hcall hgroup' (fun _ _ hd => nomatch hd)
  | splits call size =>
    refine hs.setCall hcall hgroup' fun h b hd => ?_
    cases hd
    exact size
  | divides second =>
    refine (hs.half hg (hlong second rfl) second).setCall hcall hgroup' fun h b hd => ?_
    have hsame : (s.new (Lib.half second (s.urlsOf g)) (.half g second)).urlsOf g = s.urlsOf g := new_urlsOf hg
    cases second with
    | false =>
      cases hd
      exact (congrArg List.length hsame).symm ▸ hlong false rfl
    | true => cases hd
  | putsBack =>
    have hback : ({ s.push g with putBack := g :: s.putBack } : GroupCalls).Made := by
      -- the group is pushed once more and put back once more
      refine ⟨hs.added, hs.urls, hs.halves, hs.calls, fun i => ?_, fun i hi => ?_⟩
      · show (g :: s.takes.pushed).count i = (g :: s.putBack).count i +
          if i < s.size ∧ s.IsFirst i = false then 1 else 0
        rw [List.count_cons, List.count_cons, hs.pushed]
        omega
      · rcases List.mem_cons.1 hi with rfl | hi
        · exact hg
        · exact hs.putBack i hi
    exact hback.setCall hcall hgroup' (fun _ _ hd => nomatch hd)
  | _ => exact hs.setCall hcall hgroup' (fun _ _ hd => nomatch hd)

/-- **One step.** -/
theorem Made.step (hs : s.Made) (ha : s.takes.Accounted) (hstep : s.step groupSize a = some s') : s'.Made := by
  cases does_of_step hstep with
  | finds => exact hs
  | asks => exact hs.same rfl rfl (fun _ => rfl) rfl (.refl _) hs.added rfl rfl
  | adds k url =>
    refine hs.same rfl rfl (fun _ => rfl) rfl (.refl _) ?_ rfl rfl
    show s.takes.added + 1 = (s.urls ++ [url]).length
    rw [List.length_append, hs.added]
    rfl
  | begins =>
    refine hs.same rfl rfl (fun _ => rfl) rfl ?_ hs.added rfl rfl
    show ((s.takes.calls ++ [TakeCall.started]).flatMap _).Perm _
    rw [List.flatMap_append]
    exact List.append_nil _ ▸ .refl _
  | makes i pick t urlList next call =>
    obtain ⟨hmade, hadded, hpushed⟩ := madeOf_next next
    rw [call] at hmade
    exact hs.first hmade hadded hpushed
  | takes i pick t next call =>
    obtain ⟨hmade, hadded, hpushed⟩ := madeOf_next next
    refine hs.same rfl rfl (fun _ => rfl) rfl ?_ (hadded.trans hs.added) hpushed rfl
    -- the call that goes on has made no group
    have hnone : t.calls[i]?.elim [] TakeCall.madeOf = [] := by
      cases hc : t.calls[i]? with
      | none => rfl
      | some c =>
        unfold TakeCall.madeOf
        dsimp only [Option.elim]
        split
        · exact absurd hc (call _)
        · rfl
    rwa [hnone] at hmade
  | calls g newState taken =>
    refine ⟨hs.added, hs.urls, hs.halves, ?_, hs.pushed, hs.putBack⟩
    intro c hc h hh
    rcases List.mem_append.1 hc with hc | hc
    · exact hs.calls c hc h hh
    · obtain rfl := List.mem_singleton.1 hc
      obtain rfl := Option.some.inj hh
      exact ⟨hs.lt_of_turns ha taken, fun b hb => nomatch hb⟩
  | goes j dacMalicious leaves hcall hgoes => exact hs.goes hcall hgoes

theorem made_of_reaches (h : Reaches (GroupCalls.step groupSize) anyStep {} s) : s.takes.Accounted ∧ s.Made := by
  refine ⟨accounted_of_reaches h, ?_⟩
  induction h with
  | start => exact .start
  | next h _ hstep ih => exact ih.step (accounted_of_reaches h) hstep

/-! ## What follows -/

/-- The state after some steps. -/
def after (groupSize : ℤ) (as : List GroupStep) : GroupCalls := (run (step groupSize) {} as).getD {}

theorem reaches_after {as : List GroupStep} (h : (run (step groupSize) {} as).isSome = true) :
    Reaches (step groupSize) anyStep {} (after groupSize as) := by
  obtain ⟨t, ht⟩ := Option.isSome_iff_exists.1 h
  rw [after, ht]
  exact .of_run (fun _ _ _ => trivial) ht

/-- A URL is offered and added. -/
def adds (url : String) : List GroupStep :=
  [.inUrlQueue { url := url, id := 1, clientProgram := "ie", visitTime := 5 }, .addUrl 0]

/-- Two calls take from three URLs. The first takes the URL that the second has seen, and the second is blocked
with one in its hands. The group of the first is split. -/
def splitBeside : List GroupStep :=
  adds "a" ++ adds "b" ++ adds "c" ++ [.takeUrlGroup, .takeUrlGroup] ++ List.replicate 5 (.take 0 0) ++
    List.replicate 5 (.take 1 0) ++ List.replicate 2 (.take 0 0) ++ [.setUrlGroupState 0 .visited] ++
      List.replicate 6 (.update 0 true false)

/-- **No URL is lost and none is doubled, whatever the order of the operations.** Every URL that was added is
either queued, or in the hands of a call of `takeUrlGroup`, or in a group that such a call has made, once. -/
theorem urls_conserved (h : Reaches (GroupCalls.step groupSize) anyStep {} s) :
    (s.takes.urlQueue ++ s.takes.calls.flatMap TakeCall.inHand ++ s.firstGroups.flatMap s.urlsOf).Perm
      (List.range s.urls.length) := by
  obtain ⟨haccounted, hmade⟩ := made_of_reaches h
  have hurls := haccounted.urls
  rw [hmade.added, List.flatMap_congr (g := fun c => c.inHand ++ c.madeOf) fun c _ => c.urls_eq] at hurls
  have hcalls := (List.flatMap_append_perm s.takes.calls TakeCall.inHand TakeCall.madeOf).symm
  rw [List.append_assoc]
  refine List.perm_append_comm.trans (List.Perm.trans (List.Perm.append_right _ ?_) hurls)
  exact (hmade.urls.symm.append_left _).trans hcalls.symm

theorem urls_conserved_beside : let s := after 2 splitBeside
    s.takes.calls.flatMap TakeCall.inHand = [1] ∧
      (s.takes.urlQueue ++ s.takes.calls.flatMap TakeCall.inHand ++ s.firstGroups.flatMap s.urlsOf).Perm
        (List.range s.urls.length) :=
  ⟨by decide +kernel, urls_conserved (reaches_after (by decide +kernel))⟩

/-- The halvings that make `g` of the first group `f`. -/
inductive Descends (s : GroupCalls) (f : ℕ) : ℕ → List Bool → Prop
  | first (first : s.IsFirst f = true) : Descends s f f []
  | half {g h : ℕ} {b : Bool} {p : List Bool} (parent : Descends s f h p) (source : (s.group g).source = .half h b) :
      Descends s f g (p ++ [b])

theorem Made.descends (hs : s.Made) (hg : g < s.size) : ∃ f ∈ s.firstGroups, ∃ p, s.Descends f g p ∧
    s.urlsOf g = part (s.urlsOf f) p ∧ p.length + Nat.clog 2 (s.urlsOf g).length ≤ Nat.clog 2 (s.urlsOf f).length := by
  -- a group is made after the one that it is a half of
  induction g using Nat.strong_induction_on with
  | _ g ih =>
    cases hsource : (s.group g).source with
    | call i =>
      have hfirst : s.IsFirst g = true := by
        unfold IsFirst
        rw [hsource]
      exact ⟨g, List.mem_filter.2 ⟨List.mem_range.2 hg, hfirst⟩, [], .first hfirst, rfl, by simp⟩
    | half h b =>
      obtain ⟨hlt, hlong, hhalf⟩ := hs.halves g hg h b hsource
      obtain ⟨f, hf, p, hdescends, hpart, hdepth⟩ := ih h hlt (hlt.trans hg)
      refine ⟨f, hf, p ++ [b], hdescends.half hsource, ?_, ?_⟩
      · rw [hhalf, hpart, part_concat]
      · have hhalved := clog_half_lt hlong b
        rw [← hhalf] at hhalved
        rw [List.length_append, List.length_singleton]
        omega

/-- **A group is what halvings leave of a first group**, and there are at most as many of them as the logarithm
of that group's length. -/
theorem group_is_part (h : Reaches (GroupCalls.step groupSize) anyStep {} s) (hg : g < s.size) :
    ∃ f ∈ s.firstGroups, ∃ p, s.Descends f g p ∧ s.urlsOf g = part (s.urlsOf f) p ∧
      p.length ≤ Nat.clog 2 (s.urlsOf f).length := by
  obtain ⟨f, hf, p, hdescends, hpart, hdepth⟩ := (made_of_reaches h).2.descends hg
  exact ⟨f, hf, p, hdescends, hpart, (Nat.le_add_right _ _).trans hdepth⟩

theorem group_is_part_beside : let s := after 2 splitBeside
    ∃ f ∈ s.firstGroups, ∃ p, s.Descends f 2 p ∧ s.urlsOf 2 = part (s.urlsOf f) p ∧
      p.length ≤ Nat.clog 2 (s.urlsOf f).length :=
  group_is_part (reaches_after (by decide +kernel)) (by decide +kernel)

end GroupCalls

end CaptureHPC
