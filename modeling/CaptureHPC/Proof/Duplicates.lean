import CaptureHPC.Proof.GroupCalls

/-!
# The URLs of a group

`addUrl` asks whether a URL is in the queue, and adds it later. So two URLs of a group never agree in encoding
(ignoring case), program and visit time in the runs in which no URL is asked for while such another is in the hands
of a call of `takeUrlGroup`, or has been asked for and is not yet added (`Undisturbed`).
-/

namespace CaptureHPC

open Lib

theorem Url.duplicates_comm (x y : Url) : x.duplicates y = y.duplicates x := by
  have htext : equalsIgnoreCase x.escapedUrl y.escapedUrl = equalsIgnoreCase y.escapedUrl x.escapedUrl := by
    unfold equalsIgnoreCase
    exact BEq.comm
  have hprogram : (x.clientProgram == y.clientProgram) = (y.clientProgram == x.clientProgram) := BEq.comm
  have htime : (x.visitTime == y.visitTime) = (y.visitTime == x.visitTime) := BEq.comm
  rw [duplicates, duplicates, htext, hprogram, htime]

/-- No URL of the list is asked for like an earlier one. -/
def NoDuplicates (l : List Url) : Prop := l.Pairwise fun x y => x.duplicates y = false

theorem NoDuplicates.perm {l l' : List Url} (h : NoDuplicates l) (hperm : l.Perm l') : NoDuplicates l' :=
  (hperm.pairwise_iff fun {x y} hxy => (Url.duplicates_comm y x).trans hxy).1 h

/-- What a step of a call does to what the call has in its hands, and to the queue. -/
theorem TakeCalls.hands_of_next {groupSize : ℤ} {s s' : TakeCalls} {i pick : ℕ}
    (h : s.next groupSize i pick = some s') : ∃ c c', s.calls[i]? = some c ∧ s'.calls = s.calls.set i c' ∧
      s'.added = s.added ∧
      ((s'.urlQueue = s.urlQueue ∧ (c'.inHand = c.inHand ∨ c'.inHand = []) ∧
          ∀ urlList, c' = .returned (some (.made urlList)) → c.inHand = urlList) ∨
        ∃ p u, s.urlQueue[p]? = some u ∧ s'.urlQueue = s.urlQueue.eraseIdx p ∧ c'.inHand = c.inHand ++ [u] ∧
          ∀ urlList, c' ≠ .returned (some (.made urlList))) := by
  unfold next at h
  split at h
  case h_1 hcall =>
    obtain rfl := Option.some.inj h
    refine ⟨_, _, hcall, rfl, rfl, .inl ⟨rfl, .inr ?_, fun urlList hmade => ?_⟩⟩
    · split_ifs
      · rfl
      · rfl
    · split_ifs at hmade
  case h_2 hcall =>
    split at h
    all_goals
      obtain rfl := Option.some.inj h
      exact ⟨_, _, hcall, rfl, rfl, .inl ⟨rfl, .inl rfl, fun urlList hmade => nomatch hmade⟩⟩
  case h_3 hcall =>
    obtain rfl := Option.some.inj h
    refine ⟨_, _, hcall, rfl, rfl, .inl ⟨rfl, .inr ?_, fun urlList hmade => ?_⟩⟩
    · split_ifs
      · rfl
      · rfl
    · split_ifs at hmade
      cases hmade
  case h_4 hcall =>
    obtain rfl := Option.some.inj h
    exact ⟨_, _, hcall, rfl, rfl, .inl ⟨rfl, .inl rfl, fun urlList hmade => nomatch hmade⟩⟩
  case h_5 held hcall =>
    obtain rfl := Option.some.inj h
    refine ⟨_, _, hcall, rfl, rfl, .inl ⟨rfl, .inr rfl, fun urlList hmade => ?_⟩⟩
    split_ifs at hmade
    · cases hmade
      rfl
    · cases hmade
  case h_6 left held hcall =>
    obtain rfl := Option.some.inj h
    refine ⟨_, _, hcall, rfl, rfl, .inl ⟨rfl, .inl ?_, fun urlList hmade => ?_⟩⟩
    · split_ifs
      · rfl
      · rfl
    · split_ifs at hmade
  case h_7 left held hcall =>
    split at h
    · rename_i u hu
      obtain rfl := Option.some.inj h
      exact ⟨_, _, hcall, rfl, rfl, .inr ⟨pick, u, hu, rfl, rfl, fun urlList hmade => nomatch hmade⟩⟩
    · exact nomatch h
  all_goals exact nomatch h

namespace GroupCalls

variable {groupSize : ℤ} {s s' : GroupCalls} {a : GroupStep} {g : ℕ} {L L' : List ℕ}

/-- The URLs with these numbers. -/
def asked (s : GroupCalls) (L : List ℕ) : List Url := L.filterMap fun u => s.urls[u]?

/-- A URL is looked up when no call has such another one in its hands, and none was looked up that is not yet
added. -/
def Undisturbed (s : GroupCalls) : GroupStep → Prop
  | .inUrlQueue url => ∀ url1 ∈ s.adding ++ s.asked (s.takes.calls.flatMap TakeCall.inHand), url.duplicates url1 = false
  | _ => True

instance (s : GroupCalls) (a : GroupStep) : Decidable (s.Undisturbed a) :=
  match a with
  | .inUrlQueue url => inferInstanceAs (Decidable (∀ url1 ∈ s.adding ++ s.asked (s.takes.calls.flatMap TakeCall.inHand),
      url.duplicates url1 = false))
  | .addUrl _ | .takeUrlGroup | .take .. | .setUrlGroupState .. | .update .. => .isTrue trivial

theorem asked_append : s.asked (L ++ L') = s.asked L ++ s.asked L' := List.filterMap_append

theorem asked_perm (h : L.Perm L') : (s.asked L).Perm (s.asked L') := h.filterMap _

theorem asked_sublist (h : L.Sublist L') : (s.asked L).Sublist (s.asked L') := h.filterMap _

/-- Adding a URL changes none of those that there are. -/
theorem asked_added {x : Url} (h : ∀ u ∈ L, u < s.urls.length) (hurls : s'.urls = s.urls ++ [x]) :
    s'.asked L = s.asked L := by
  refine List.filterMap_congr fun u hu => ?_
  rw [hurls, List.getElem?_append_left (h u hu)]

/-- What the calls hold. -/
def InHands (s : GroupCalls) (H : List ℕ) : Prop := H = [] ∨ ∃ c ∈ s.takes.calls, c.inHand = H

/-- The queue and what is added to it, with what a call holds, and the URLs of a group. -/
structure Differing (s : GroupCalls) : Prop where
  hands : ∀ H, s.InHands H → NoDuplicates (s.adding ++ s.asked (s.takes.urlQueue ++ H))
  groups : ∀ g < s.size, NoDuplicates (s.asked (s.urlsOf g))

theorem Differing.start : Differing {} where
  hands H h := by
    obtain rfl | ⟨c, hc, -⟩ := h
    · exact List.Pairwise.nil
    · exact absurd hc List.not_mem_nil
  groups _ hg := absurd hg (Nat.not_lt_zero _)

/-- The URLs that there are. -/
structure Numbered (s : GroupCalls) : Prop where
  hands : ∀ H, s.InHands H → ∀ u ∈ s.takes.urlQueue ++ H, u < s.urls.length
  groups : ∀ g < s.size, ∀ u ∈ s.urlsOf g, u < s.urls.length

theorem Made.numbered (hs : s.Made) (ha : s.takes.Accounted) : s.Numbered := by
  have hall : ∀ u, u ∈ s.takes.urlQueue ∨ u ∈ s.takes.calls.flatMap TakeCall.urls → u < s.urls.length := fun u hu => by
    have hmem := ha.urls.subset (List.mem_append.2 hu.symm)
    rw [hs.added] at hmem
    exact List.mem_range.1 hmem
  refine ⟨fun H hH u hu => ?_, fun g hg u hu => ?_⟩
  · rcases List.mem_append.1 hu with hu | hu
    · exact hall u (.inl hu)
    · obtain rfl | ⟨c, hc, rfl⟩ := hH
      · exact absurd hu List.not_mem_nil
      · refine hall u (.inr (List.mem_flatMap.2 ⟨c, hc, ?_⟩))
        rw [c.urls_eq]
        exact List.mem_append_left _ hu
  · obtain ⟨f, hf, p, -, hpart, -⟩ := hs.descends hg
    rw [hpart] at hu
    have hmade := hs.urls.symm.subset (List.mem_flatMap.2 ⟨f, hf, (part_sub _ _).subset hu⟩)
    obtain ⟨c, hc, hmem⟩ := List.mem_flatMap.1 hmade
    refine hall u (.inr (List.mem_flatMap.2 ⟨c, hc, ?_⟩))
    rw [c.urls_eq]
    exact List.mem_append_right _ hmem

/-- A URL that is looked up and not found. -/
theorem Differing.lookUp (hs : s.Differing) {url : Url} (hok : s.Undisturbed (.inUrlQueue url))
    (hqueue : s.inUrlQueue url = false) : ({ s with adding := s.adding ++ [url] } : GroupCalls).Differing := by
  have hfree : ∀ x ∈ s.adding ++ s.asked (s.takes.calls.flatMap TakeCall.inHand), url.duplicates x = false := hok
  refine ⟨fun H hH => ?_, hs.groups⟩
  have hnew : ∀ x ∈ s.adding ++ s.asked (s.takes.urlQueue ++ H), url.duplicates x = false := fun x hx => by
    rw [asked_append, List.mem_append, List.mem_append] at hx
    -- what is not yet added and what is in hands was looked at, and the queue was searched
    rcases hx with hx | hx | hx
    · exact hfree x (List.mem_append_left _ hx)
    · obtain ⟨u, hu, hurl⟩ := List.mem_filterMap.1 hx
      unfold GroupCalls.inUrlQueue at hqueue
      rw [List.any_eq_false] at hqueue
      have hany := hqueue u hu
      rw [hurl, Option.any_some] at hany
      exact eq_false_of_ne_true hany
    · refine hfree x (List.mem_append_right _ ?_)
      obtain rfl | ⟨c, hc, rfl⟩ := hH
      · exact nomatch hx
      · obtain ⟨u, hu, hurl⟩ := List.mem_filterMap.1 hx
        exact List.mem_filterMap.2 ⟨u, List.mem_flatMap.2 ⟨c, hc, hu⟩, hurl⟩
  have hcons : NoDuplicates (url :: (s.adding ++ s.asked (s.takes.urlQueue ++ H))) :=
    List.pairwise_cons.2 ⟨hnew, hs.hands H hH⟩
  refine hcons.perm ?_
  show List.Perm _ (s.adding ++ [url] ++ s.asked (s.takes.urlQueue ++ H))
  rw [List.append_assoc]
  exact List.perm_middle.symm

/-- The URLs and what is in the hands of the calls stay. -/
theorem Differing.same (hs : s.Differing) (adding : s'.adding = s.adding) (urls : s'.urls = s.urls)
    (queue : s'.takes.urlQueue.Sublist s.takes.urlQueue)
    (hands : ∀ H, s'.InHands H → s.InHands H) (groups : ∀ g < s'.size, NoDuplicates (s.asked (s'.urlsOf g))) :
    s'.Differing := by
  have hasked : ∀ L, s'.asked L = s.asked L := fun L => by
    unfold asked
    rw [urls]
  refine ⟨fun H hH => ?_, fun g hg => ?_⟩
  · rw [adding, hasked]
    refine (hs.hands H (hands H hH)).sublist ?_
    exact (asked_sublist (queue.append_right H)).append_left _
  · rw [hasked]
    exact groups g hg

/-- A URL is added. -/
theorem Differing.add (hs : s.Differing) (hn : s.Numbered) (ha : s.takes.added = s.urls.length) {k : ℕ} {x : Url}
    (hk : s.adding[k]? = some x) (hurls : s'.urls = s.urls ++ [x]) (hadding : s'.adding = s.adding.eraseIdx k)
    (hqueue : s'.takes.urlQueue = s.takes.urlQueue ++ [s.takes.added]) (hcalls : s'.takes.calls = s.takes.calls)
    (hgroup : s'.group = s.group) (hsize : s'.size = s.size) : s'.Differing := by
  obtain ⟨hlt, rfl⟩ := List.getElem?_eq_some_iff.1 hk
  -- the new URL has the next number
  have hlast : s'.asked [s.takes.added] = [s.adding[k]] := by
    unfold asked
    rw [ha, hurls, List.filterMap_cons, List.getElem?_concat_length]
    rfl
  refine ⟨fun H hH => ?_, fun g hg => ?_⟩
  · have hH' : s.InHands H := by
      unfold InHands at hH ⊢
      rwa [hcalls] at hH
    have hold := asked_added (hn.hands H hH') hurls
    rw [asked_append, asked_append] at hold
    have hdistinct := hs.hands H hH'
    rw [hqueue, hadding, asked_append, asked_append, hlast]
    refine hdistinct.perm ?_
    rw [asked_append, ← hold]
    have hadd : (s.adding[k] :: s.adding.eraseIdx k).Perm s.adding := List.getElem_cons_eraseIdx_perm hlt
    refine (hadd.symm.append_right _).trans ?_
    rw [List.append_assoc, List.singleton_append, ← List.append_assoc, List.cons_append, List.cons_append,
      ← List.append_assoc]
    exact List.perm_middle.symm
  · have hgroups : s'.urlsOf g = s.urlsOf g := by
      unfold urlsOf
      rw [hgroup]
    rw [hgroups, asked_added (hn.groups g (hsize ▸ hg)) hurls]
    exact hs.groups g (hsize ▸ hg)

/-- A group is made. -/
theorem Differing.new (hs : s.Differing) {urlList : List ℕ} (source : GroupSource) (h : NoDuplicates (s.asked urlList)) :
    (s.new urlList source).Differing := by
  refine ⟨hs.hands, fun g hg => ?_⟩
  show NoDuplicates (s.asked ((s.new urlList source).urlsOf g))
  obtain hg | rfl : g < s.size ∨ g = s.size := Nat.lt_succ_iff_lt_or_eq.1 hg
  · rw [new_urlsOf hg]
    exact hs.groups g hg
  · unfold urlsOf
    rwa [new_group_size]

/-- A call of `takeUrlGroup` goes on. -/
theorem Differing.take (hs : s.Differing) {t : TakeCalls} {i pick : ℕ} (ht : s.takes.next groupSize i pick = some t) :
    ({ s with takes := t } : GroupCalls).Differing := by
  obtain ⟨c, c', hcall, hcalls, -, hmove⟩ := TakeCalls.hands_of_next ht
  have hc : s.InHands c.inHand := .inr ⟨c, List.mem_of_getElem? hcall, rfl⟩
  have hother : ∀ d ∈ t.calls, d = c' ∨ d ∈ s.takes.calls := fun d hd => by
    rw [hcalls] at hd
    exact (List.mem_or_eq_of_mem_set hd).symm
  -- either nothing is taken, or the URL at one place of the queue
  obtain ⟨hqueue, hhand, -⟩ | ⟨p, u, hu, hqueue, hhand, -⟩ := hmove
  · refine hs.same rfl rfl ?_ (fun H hH => ?_) hs.groups
    · show t.urlQueue.Sublist s.takes.urlQueue
      rw [hqueue]
    · obtain rfl | ⟨d, hd, rfl⟩ := hH
      · exact .inl rfl
      · obtain rfl | hd := hother d hd
        · rcases hhand with hhand | hhand
          · exact hhand ▸ hc
          · exact .inl hhand
        · exact .inr ⟨d, hd, rfl⟩
  · obtain ⟨hp, rfl⟩ := List.getElem?_eq_some_iff.1 hu
    have hrest : t.urlQueue.Sublist s.takes.urlQueue := by
      rw [hqueue]
      exact List.eraseIdx_sublist _ _
    have hold : ∀ H, s.InHands H → NoDuplicates (s.adding ++ s.asked (t.urlQueue ++ H)) := fun H hH =>
      (hs.hands H hH).sublist ((asked_sublist (hrest.append_right H)).append_left _)
    refine ⟨fun H hH => ?_, hs.groups⟩
    obtain rfl | ⟨d, hd, rfl⟩ := hH
    · exact hold [] (.inl rfl)
    · obtain rfl | hd := hother d hd
      · -- the URL goes from the queue into the hands of the call
        refine (hs.hands _ hc).perm (List.Perm.append_left _ (asked_perm ?_))
        show (s.takes.urlQueue ++ c.inHand).Perm (t.urlQueue ++ d.inHand)
        have hqueued : (s.takes.urlQueue[p] :: s.takes.urlQueue.eraseIdx p).Perm s.takes.urlQueue :=
          List.getElem_cons_eraseIdx_perm hp
        rw [hqueue, hhand, ← List.append_assoc]
        exact (hqueued.symm.append_right _).trans (List.perm_append_singleton _ _).symm
      · exact hold _ (.inr ⟨d, hd, rfl⟩)

/-- The URLs that a call makes a group of. -/
theorem Differing.made (hs : s.Differing) {t : TakeCalls} {i pick : ℕ} {urlList : List ℕ}
    (ht : s.takes.next groupSize i pick = some t) (hmade : t.calls[i]? = some (.returned (some (.made urlList)))) :
    NoDuplicates (s.asked urlList) := by
  obtain ⟨c, c', hcall, hcalls, -, hmove⟩ := TakeCalls.hands_of_next ht
  rw [hcalls, List.getElem?_set_self (List.getElem?_eq_some_iff.1 hcall).1] at hmade
  obtain rfl := Option.some.inj hmade
  -- they were in its hands
  have hheld : c.inHand = urlList := by
    obtain ⟨-, -, hlist⟩ | ⟨p, u, -, -, -, hlist⟩ := hmove
    · exact hlist urlList rfl
    · exact absurd rfl (hlist urlList)
  have hsub : (s.asked urlList).Sublist (s.adding ++ s.asked (s.takes.urlQueue ++ c.inHand)) := by
    rw [hheld]
    exact (asked_sublist (List.sublist_append_right _ _)).trans (List.sublist_append_right _ _)
  exact (hs.hands _ (.inr ⟨c, List.mem_of_getElem? hcall, rfl⟩)).sublist hsub

/-- **One step.** -/
theorem Differing.step (hs : s.Differing) (hmade : s.Made) (hn : s.Numbered) (hok : s.Undisturbed a)
    (hstep : s.step groupSize a = some s') : s'.Differing := by
  cases does_of_step hstep with
  | finds => exact hs
  | asks url free => exact hs.lookUp hok free
  | adds k url asked => exact hs.add hn hmade.added asked rfl rfl rfl rfl rfl rfl
  | begins =>
    refine hs.same rfl rfl (.refl _) (fun H hH => ?_) hs.groups
    obtain rfl | ⟨c, hc, rfl⟩ := hH
    · exact .inl rfl
    · rcases List.mem_append.1 hc with hc | hc
      · exact .inr ⟨c, hc, rfl⟩
      · obtain rfl := List.mem_singleton.1 hc
        exact .inl rfl
  | takes i pick t next => exact hs.take next
  | makes i pick t urlList next call => exact (hs.take next).new _ (hs.made next call)
  | calls => exact ⟨hs.hands, hs.groups⟩
  | @goes j dacMalicious leaves g c c' t hcall hgoes =>
    have hset : ∀ x : CalledGroup, x.urlList = (s.group g).urlList → (s.setGroup g x).Differing := fun x hx => by
      refine ⟨hs.hands, fun i hi => ?_⟩
      have hlist : (s.setGroup g x).urlsOf i = s.urlsOf i := by
        by_cases hig : i = g
        · rw [hig]
          exact (congrArg CalledGroup.urlList (Function.update_self g x s.group)).trans hx
        · exact congrArg CalledGroup.urlList (Function.update_of_ne hig _ _)
      rw [hlist]
      exact hs.groups i hi
    cases hgoes with
    | writes newState =>
      have hwritten := hset { s.group g with urlGroupState := newState } rfl
      exact ⟨hwritten.hands, hwritten.groups⟩
    | counts n =>
      have hcounted := hset { s.group g with errorCount := n + 1 } rfl
      exact ⟨hcounted.hands, hcounted.groups⟩
    | divides second =>
      have hg := (hmade.calls _ (List.mem_of_getElem? hcall) g rfl).1
      have hhalf : NoDuplicates (s.asked (half second (s.urlsOf g))) :=
        (hs.groups g hg).sublist (asked_sublist (half_sub second _).sublist)
      have hnew := hs.new (.half g second) hhalf
      exact ⟨hnew.hands, hnew.groups⟩
    | _ => exact ⟨hs.hands, hs.groups⟩

theorem differing_of_reaches (h : Reaches (GroupCalls.step groupSize) Undisturbed {} s) : s.Differing := by
  induction h with
  | start => exact .start
  | next h hok hstep ih =>
    obtain ⟨haccounted, hmade⟩ := made_of_reaches (h.weaken fun _ _ _ => trivial)
    exact ih.step hmade (hmade.numbered haccounted) hok hstep

/-- **No URL of a group is asked for like another one of it**, in encoding (ignoring case), program and visit time,
if each URL was looked up undisturbed. -/
theorem group_distinct (h : Reaches (GroupCalls.step groupSize) Undisturbed {} s) (hg : g < s.size) :
    NoDuplicates (s.asked (s.urlsOf g)) :=
  (differing_of_reaches h).groups g hg

/-- "a" is offered again while it is queued, and when it is in a group. -/
def offeredAgain : List GroupStep :=
  adds "a" ++ adds "b" ++ [.inUrlQueue { url := "A", id := 2, clientProgram := "ie", visitTime := 5 }, .takeUrlGroup] ++
    List.replicate 7 (.take 0 0) ++ adds "a" ++ [.setUrlGroupState 0 .visited] ++ List.replicate 6 (.update 0 true false)

theorem group_distinct_offeredAgain : ∃ s : GroupCalls, s.urls.length = 3 ∧ s.urlsOf 0 = [0, 1] ∧
    NoDuplicates (s.asked (s.urlsOf 0)) := by
  have hrun : (run (guarded (GroupCalls.step 2) Undisturbed) {} offeredAgain).map
      (fun s => (s.urls.length, s.urlsOf 0, s.size)) = some (3, [0, 1], 3) := by decide +kernel
  obtain ⟨s, hs, hstate⟩ := Option.map_eq_some_iff.1 hrun
  obtain ⟨hlength, hstate⟩ := Prod.mk.inj hstate
  obtain ⟨hgroup, hsize⟩ := Prod.mk.inj hstate
  exact ⟨s, hlength, hgroup, group_distinct (.of_guarded hs) (by rw [hsize]; decide)⟩

/-- A call has taken "a" when it is offered again, and takes it once more. -/
example : (run (GroupCalls.step 2) {} (adds "a" ++ adds "b" ++ [.takeUrlGroup] ++ List.replicate 4 (.take 0 0) ++
    adds "a" ++ List.replicate 3 (.take 0 1))).map (fun s => (s.urlsOf 0, (s.asked (s.urlsOf 0)).map Url.url)) =
      some ([0, 2], ["a", "a"]) := by decide +kernel

end GroupCalls

end CaptureHPC
