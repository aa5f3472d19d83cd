import CaptureHPC.Lib.Halving
import CaptureHPC.Proof.Serving

/-!
# Where groups come from

A group is made of URLs polled from the queue, or by splitting a group in its halves. The history
tells from which first group a group comes (`firstGroup`) and which halves were taken (`halves`).

* `Lineage`: the queue and the first groups have each URL exactly once, and a group is a part of its first group.
* `groups_nested`: so the URLs of two groups are nested or disjoint.
-/

namespace CaptureHPC

open Lib UrlGroup UrlGroupsController

variable {cfg : Config} {sdf : SimpleDateFormat} {w : World} {n : ℤ} {A : ℕ → Prop} {g h : ℕ} {s s' : UrlGroupsController}

/-- The first group from which splits made `g`. -/
def firstGroup (g : ℕ) : List QueueOp → ℕ
  | [] => g
  | .split h a b :: ops => if g = a ∨ g = b then firstGroup h ops else firstGroup g ops
  | _ :: ops => firstGroup g ops

/-- Which halves lead from the first group to `g`. -/
def halves (g : ℕ) : List QueueOp → List Bool
  | [] => []
  | .split h a b :: ops =>
    if g = a then halves h ops ++ [false] else if g = b then halves h ops ++ [true] else halves g ops
  | _ :: ops => halves g ops

namespace UrlGroupsController

/-- The groups that were not made by a split. -/
def firstGroups (s : UrlGroupsController) : List ℕ :=
  (List.range s.size).filter fun g => firstGroup g s.history = g

/-- The URLs of a group. -/
def urlsOf (s : UrlGroupsController) (g : ℕ) : List ℕ := (s.group g).urlList

end UrlGroupsController

/-- A group that no split has made. -/
theorem firstGroup_of_not_made {ops : List QueueOp} (hg : ∀ h a b, .split h a b ∈ ops → g ≠ a ∧ g ≠ b) :
    firstGroup g ops = g ∧ halves g ops = [] := by
  induction ops with
  | nil => exact ⟨rfl, rfl⟩
  | cons op ops ih =>
    have hrest := ih fun h a b hmem => hg h a b (List.mem_cons_of_mem _ hmem)
    cases op with
    | taken c g' => exact hrest
    | retried g' => exact hrest
    | split h a b =>
      obtain ⟨ha, hb⟩ := hg h a b List.mem_cons_self
      unfold firstGroup halves
      rw [if_neg (by rintro (h | h); exacts [ha h, hb h]), if_neg ha, if_neg hb]
      exact hrest

/-- What is known of the groups. -/
structure Lineage (s : UrlGroupsController) : Prop where
  made : ∀ h a b, .split h a b ∈ s.history → a < s.size ∧ b < s.size
  first_lt : ∀ g < s.size, firstGroup g s.history < s.size
  first_idem : ∀ g < s.size, firstGroup (firstGroup g s.history) s.history = firstGroup g s.history
  part : ∀ g < s.size, s.urlsOf g = part (s.urlsOf (firstGroup g s.history)) (halves g s.history)
  urls : (s.urls.urlQueue ++ s.firstGroups.flatMap s.urlsOf).Perm (List.range s.urls.size)

theorem Lineage.start : Lineage {} where
  made _ _ _ hmem := absurd hmem List.not_mem_nil
  first_lt _ hg := absurd hg (Nat.not_lt_zero _)
  first_idem _ hg := absurd hg (Nat.not_lt_zero _)
  part _ hg := absurd hg (Nat.not_lt_zero _)
  urls := .refl _

/-- Nothing is made, and every group has the URLs that it had. -/
structure SameGroups (s s' : UrlGroupsController) : Prop where
  size : s'.size = s.size
  urlsOf : s'.urlsOf = s.urlsOf
  first : ∀ g, firstGroup g s'.history = firstGroup g s.history
  halves : ∀ g, halves g s'.history = halves g s.history
  made : ∀ h a b, .split h a b ∈ s'.history → .split h a b ∈ s.history

theorem Lineage.same (hs : Lineage s) (h : SameGroups s s')
    (hurls : (s'.urls.urlQueue ++ s.firstGroups.flatMap s.urlsOf).Perm (List.range s'.urls.size)) : Lineage s' where
  made i a b hmem := by rw [h.size]; exact hs.made i a b (h.made i a b hmem)
  first_lt g hg := by rw [h.first, h.size]; exact hs.first_lt g (h.size ▸ hg)
  first_idem g hg := by rw [h.first, h.first]; exact hs.first_idem g (h.size ▸ hg)
  part g hg := by rw [h.first, h.halves, h.urlsOf]; exact hs.part g (h.size ▸ hg)
  urls := by
    have hfirsts : s'.firstGroups = s.firstGroups := by
      unfold firstGroups
      rw [h.size]
      exact List.filter_congr fun g _ => by rw [h.first]
    rw [hfirsts, h.urlsOf]
    exact hurls

theorem SameGroups.of_group (hsize : s'.size = s.size) (hgroup : ∀ i, (s'.group i).urlList = (s.group i).urlList)
    (hhistory : s'.history = s.history) : SameGroups s s' where
  size := hsize
  urlsOf := funext hgroup
  first _ := by rw [hhistory]
  halves _ := by rw [hhistory]
  made _ _ _ hmem := by rwa [hhistory] at hmem

theorem urlList_update {f : ℕ → UrlGroup} {x : UrlGroup} (hx : x.urlList = (f g).urlList) (i : ℕ) :
    (Function.update f g x i).urlList = (f i).urlList := by
  by_cases hi : i = g
  · rw [hi, Function.update_self, hx]
  · rw [Function.update_of_ne hi]

/-- A duplicate is not added. -/
theorem Lineage.add (hs : Lineage s) (x : Url) : Lineage { s with urls := s.urls.addUrl x } := by
  refine hs.same (.of_group rfl (fun _ => rfl) rfl) ?_
  dsimp only
  unfold UrlsController.addUrl
  split_ifs
  · exact hs.urls
  · show ((s.urls.urlQueue ++ [s.urls.size]) ++ _).Perm (List.range (s.urls.size + 1))
    rw [List.range_succ, List.append_assoc]
    refine (List.perm_append_comm_assoc _ _ _).trans ?_
    exact (List.perm_append_comm).trans (hs.urls.append_right _)

/-- A group of polled URLs is a first group. -/
theorem Lineage.fresh (hs : Lineage s) {picks : ℕ → ℕ} {c : ℕ} {x : UrlGroup} {t : UrlsController}
    (new : IsNew (polled n picks s.urls).1 s.urls x)
    (frame : UrlsFrame (polled n picks s.urls).1 (polled n picks s.urls).2 t) :
    Lineage { s with urls := t, group := Function.update s.group s.size x, size := s.size + 1,
                       history := .taken c s.size :: s.history } := by
  set s' : UrlGroupsController := { s with
    urls := t, group := Function.update s.group s.size x, size := s.size + 1
    history := .taken c s.size :: s.history } with hs'
  have hfresh : firstGroup s.size s.history = s.size ∧ halves s.size s.history = [] :=
    firstGroup_of_not_made fun i a b hmem => by
      obtain ⟨ha, hb⟩ := hs.made i a b hmem
      omega
  have hold : ∀ i < s.size, s'.urlsOf i = s.urlsOf i := fun i hi =>
    congrArg UrlGroup.urlList (Function.update_of_ne (Nat.ne_of_lt hi) _ _)
  have hnew : s'.urlsOf s.size = (polled n picks s.urls).1 :=
    (congrArg UrlGroup.urlList (Function.update_self _ _ _)).trans new.urlList
  have hlast : ∀ i < s'.size, i < s.size ∨ i = s.size := fun i hi => Nat.lt_succ_iff_lt_or_eq.1 hi
  refine ⟨fun i a b hmem => ?_, fun i hi => ?_, fun i hi => ?_, fun i hi => ?_, ?_⟩
  · obtain hmem | hmem := List.mem_cons.1 hmem
    · cases hmem
    · obtain ⟨ha, hb⟩ := hs.made i a b hmem
      exact ⟨Nat.lt_succ_of_lt ha, Nat.lt_succ_of_lt hb⟩
  · show firstGroup i s.history < s.size + 1
    obtain hi | rfl := hlast i hi
    · exact Nat.lt_succ_of_lt (hs.first_lt i hi)
    · rw [hfresh.1]
      exact Nat.lt_succ_self _
  · show firstGroup (firstGroup i s.history) s.history = firstGroup i s.history
    obtain hi | rfl := hlast i hi
    · exact hs.first_idem i hi
    · rw [hfresh.1, hfresh.1]
  · show s'.urlsOf i = Lib.part (s'.urlsOf (firstGroup i s.history)) (halves i s.history)
    obtain hi | rfl := hlast i hi
    · rw [hold i hi, hold _ (hs.first_lt i hi)]
      exact hs.part i hi
    · rw [hfresh.1, hfresh.2, part_nil]
  · have hperm := (takeUrls_perm picks (initialUrlGroupSize n s.urls.urlQueue.length).toNat s.urls).2
    have hsize : t.size = s.urls.size := frame.size.trans (polled_size n picks s.urls)
    have hfirsts : s'.firstGroups = s.firstGroups ++ [s.size] := by
      show (List.range (s.size + 1)).filter _ = _
      rw [List.range_succ, List.filter_append]
      refine congrArg₂ _ rfl (List.filter_cons_of_pos ?_)
      exact decide_eq_true hfresh.1
    have hflat : s.firstGroups.flatMap s'.urlsOf = s.firstGroups.flatMap s.urlsOf :=
      List.flatMap_congr fun i hi => hold i (List.mem_range.1 (List.mem_filter.1 hi).1)
    show (t.urlQueue ++ _).Perm (List.range t.size)
    rw [hfirsts, List.flatMap_append, hflat, List.flatMap_singleton, hnew, frame.queue, hsize]
    refine List.Perm.trans ?_ ((hperm.symm.append_right _).trans hs.urls)
    refine (List.perm_append_comm_assoc _ _ _).trans (List.perm_append_comm.trans ?_)
    exact List.perm_append_comm.append_right _

/-- What a split makes of the groups: an old one is as before, a new one is a half of `g`. -/
inductive AfterSplit (g : ℕ) (s s' : UrlGroupsController) (i : ℕ) : Prop
  | old (hi : i < s.size) (first : firstGroup i s'.history = firstGroup i s.history)
      (halves : halves i s'.history = halves i s.history) (urlsOf : s'.urlsOf i = s.urlsOf i)
  | new (b : Bool) (hi : s.size ≤ i) (first : firstGroup i s'.history = firstGroup g s.history)
      (halves : CaptureHPC.halves i s'.history = CaptureHPC.halves g s.history ++ [b])
      (urlsOf : s'.urlsOf i = half b (s.urlsOf g))

theorem afterSplit {x x1 x2 : UrlGroup} (hx : x.urlList = s.urlsOf g) (h : Divided g x x1 x2 s s') {i : ℕ}
    (hi : i < s.size + 2) : AfterSplit g s s' i := by
  have hfirst : i < s.size → firstGroup i s'.history = firstGroup i s.history := fun hlt => by
    rw [h.history]
    exact if_neg (by omega)
  obtain hlt | rfl | rfl : i < s.size ∨ i = s.size ∨ i = s.size + 1 := by omega
  · refine .old hlt (hfirst hlt) ?_ ?_
    · rw [h.history]
      exact (if_neg (Nat.ne_of_lt hlt)).trans (if_neg (by omega))
    · unfold urlsOf at hx ⊢
      rw [h.group, Function.update_of_ne (by omega), Function.update_of_ne (by omega), urlList_update hx]
  · refine .new false le_rfl ?_ ?_ ?_
    · rw [h.history]
      exact if_pos (.inl rfl)
    · rw [h.history]
      exact if_pos rfl
    · unfold urlsOf at hx ⊢
      rw [h.group, Function.update_of_ne (by omega), Function.update_self, h.first.urlList, UrlGroup.size, hx]
      rfl
  · refine .new true (by omega) ?_ ?_ ?_
    · rw [h.history]
      exact if_pos (.inr rfl)
    · rw [h.history]
      exact (if_neg (by omega)).trans (if_pos rfl)
    · unfold urlsOf at hx ⊢
      rw [h.group, Function.update_self, h.second.urlList, UrlGroup.size, hx]
      rfl

/-- The halves of a group come from where the group comes from. -/
theorem Lineage.divided (hs : Lineage s) {x x1 x2 : UrlGroup} (h : Divided g x x1 x2 s s') (hg : g < s.size)
    (hx : x.urlList = s.urlsOf g) (hu : UrlsFrame (s.group g).urlList s.urls s'.urls) :
    Lineage s' := by
  have hafter : ∀ i < s'.size, AfterSplit g s s' i := fun i hi => afterSplit hx h (h.size ▸ hi)
  have hold : ∀ i < s.size, firstGroup i s'.history = firstGroup i s.history ∧ s'.urlsOf i = s.urlsOf i := fun i hi => by
    rcases hafter i (by rw [h.size]; omega) with ⟨_, hfirst, _, hurls⟩ | ⟨_, hge, _, _, _⟩
    · exact ⟨hfirst, hurls⟩
    · omega
  refine ⟨fun i a b hmem => ?_, fun i hi => ?_, fun i hi => ?_, fun i hi => ?_, ?_⟩
  · rw [h.history, List.mem_cons] at hmem
    rw [h.size]
    obtain hmem | hmem := hmem
    · cases hmem
      omega
    · obtain ⟨ha, hb⟩ := hs.made i a b hmem
      omega
  · rw [h.size]
    rcases hafter i hi with ⟨hi', hfirst, _, _⟩ | ⟨b, _, hfirst, _, _⟩
    · have := hs.first_lt i hi'
      omega
    · have := hs.first_lt g hg
      omega
  · rcases hafter i hi with ⟨hi', hfirst, _, _⟩ | ⟨b, _, hfirst, _, _⟩
    · rw [hfirst, (hold _ (hs.first_lt i hi')).1]
      exact hs.first_idem i hi'
    · rw [hfirst, (hold _ (hs.first_lt g hg)).1]
      exact hs.first_idem g hg
  · rcases hafter i hi with ⟨hi', hfirst, hhalves, hurls⟩ | ⟨b, _, hfirst, hhalves, hurls⟩
    · rw [hurls, hfirst, hhalves, (hold _ (hs.first_lt i hi')).2]
      exact hs.part i hi'
    · rw [hurls, hfirst, hhalves, (hold _ (hs.first_lt g hg)).2, part_concat]
      exact congrArg (half b) (hs.part g hg)
  · have hfirsts : s'.firstGroups = s.firstGroups := by
      unfold firstGroups
      have hlast : firstGroup s.size s'.history ≠ s.size ∧ firstGroup (s.size + 1) s'.history ≠ s.size + 1 := by
        have := hs.first_lt g hg
        constructor
        · rcases afterSplit hx h (i := s.size) (by omega) with ⟨hlt, _, _, _⟩ | ⟨_, _, hfirst, _, _⟩ <;> omega
        · rcases afterSplit hx h (i := s.size + 1) (by omega) with ⟨hlt, _, _, _⟩ | ⟨_, _, hfirst, _, _⟩ <;> omega
      rw [h.size, List.range_succ, List.range_succ, List.filter_append, List.filter_append,
        List.filter_cons_of_neg (by simpa using hlast.1), List.filter_cons_of_neg (by simpa using hlast.2),
        List.filter_nil, List.append_nil, List.append_nil]
      refine List.filter_congr fun i hi => ?_
      rw [(hold i (List.mem_range.1 hi)).1]
    have hflat : s.firstGroups.flatMap s'.urlsOf = s.firstGroups.flatMap s.urlsOf :=
      List.flatMap_congr fun i hi => (hold i (List.mem_range.1 (List.mem_filter.1 hi).1)).2
    rw [hfirsts, hflat, hu.queue, hu.size]
    exact hs.urls

theorem Lineage.move (h : GroupMove n A s s') (hs : Lineage s) : Lineage s' := by
  cases h with
  | urls t size queue _ =>
    refine hs.same (.of_group rfl (fun _ => rfl) rfl) ?_
    show (t.urlQueue ++ _).Perm (List.range t.size)
    rw [size, queue]
    exact hs.urls
  | add => exact hs.add _
  | take picks c r h _ =>
    cases h with
    | popped => exact hs.same ⟨rfl, rfl, fun _ => rfl, fun _ => rfl, fun _ _ _ hmem => by simpa using hmem⟩ hs.urls
    | idle hq hnil =>
      refine hs.same (.of_group rfl (fun _ => rfl) rfl) ?_
      have hperm := takeUrls_perm picks (initialUrlGroupSize n s.urls.urlQueue.length).toNat s.urls
      have hrest := hperm.2
      rw [show (takeUrls picks _ s.urls).1 = [] from hnil, List.nil_append] at hrest
      show (((polled n picks s.urls).2.urlQueue) ++ _).Perm (List.range (polled n picks s.urls).2.size)
      rw [polled_size]
      exact (hrest.symm.append_right _).trans hs.urls
    | fresh hq new frame labels => exact hs.fresh new frame
  | work _ g _ _ h _ =>
    refine hs.same (.of_group h.size (fun i => ?_) h.history) ?_
    · by_cases hi : i = g
      · rw [hi, h.urlList]
      · rw [h.others i hi]
    · rw [h.urls.queue, h.urls.size]
      exact hs.urls
  | react g st hg h hu _ =>
    have hsame : ∀ {x : UrlGroup}, s'.group = Function.update s.group g x → x.urlList = (s.group g).urlList →
        ∀ i, (s'.group i).urlList = (s.group i).urlList := fun hgroup hx i => by rw [hgroup, urlList_update hx]
    have hperm : (s'.urls.urlQueue ++ s.firstGroups.flatMap s.urlsOf).Perm (List.range s'.urls.size) := by
      rw [hu.queue, hu.size]
      exact hs.urls
    cases h with
    | kept h => exact hs.same (.of_group h.size (hsame h.group rfl) h.history) hperm
    | retried _ _ _ h =>
      refine hs.same ⟨h.size, funext (hsame h.group rfl), fun _ => ?_, fun _ => ?_, fun _ _ _ hmem => ?_⟩ hperm
      · rw [h.history]
        rfl
      · rw [h.history]
        rfl
      · rw [h.history] at hmem
        simpa using hmem
    | divided x1 x2 _ _ h => exact hs.divided h hg.1 rfl hu

theorem lineage_of_moves (h : GroupMoves n A {} s) : Lineage s := by
  induction h with
  | refl => exact .start
  | tail _ hmove ih => exact ih.move hmove

/-- What is known of the groups in every state that the server reaches. -/
theorem lineage_of_reaches (h : Reaches (World.act cfg sdf) anyStep {} w) : Lineage w.groups :=
  lineage_of_moves (moves_of_anyStep h)

/-! ## What follows for the server -/

/-- The first groups have their URLs once, and two of them have none in common. -/
theorem Lineage.firsts (hs : Lineage s) : (∀ f ∈ s.firstGroups, (s.urlsOf f).Nodup) ∧
    ∀ f ∈ s.firstGroups, ∀ f' ∈ s.firstGroups, f ≠ f' → (s.urlsOf f).Disjoint (s.urlsOf f') := by
  have hnodup : (s.firstGroups.flatMap s.urlsOf).Nodup :=
    (hs.urls.nodup_iff.2 List.nodup_range).sublist (List.sublist_append_right _ _)
  obtain ⟨hall, hpairs⟩ := List.nodup_flatMap.1 hnodup
  refine ⟨hall, fun f hf f' hf' hne => ?_⟩
  have hsymm : Std.Symm (Function.onFun List.Disjoint s.urlsOf) := ⟨fun _ _ h => List.Disjoint.symm h⟩
  exact hpairs.forall hf hf' hne

theorem Lineage.first_mem (hs : Lineage s) (hg : g < s.size) : firstGroup g s.history ∈ s.firstGroups :=
  List.mem_filter.2 ⟨List.mem_range.2 (hs.first_lt g hg), decide_eq_true (hs.first_idem g hg)⟩

/-- **Two groups have no URL in common, or one is a part of the other.** Also no group has a URL twice. -/
theorem groups_nested (hreach : Reaches (World.act cfg sdf) anyStep {} w) (hg : g < w.groups.size)
    (hh : h < w.groups.size) : (w.groups.urlsOf g).Nodup ∧ ((w.groups.urlsOf g).Disjoint (w.groups.urlsOf h) ∨
      w.groups.urlsOf g <:+: w.groups.urlsOf h ∨ w.groups.urlsOf h <:+: w.groups.urlsOf g) := by
  have hs := lineage_of_reaches hreach
  obtain ⟨hnodup, hdisjoint⟩ := hs.firsts
  rw [hs.part g hg, hs.part h hh]
  refine ⟨(hnodup _ (hs.first_mem hg)).sublist (part_sub _ _).sublist, ?_⟩
  by_cases hsame : firstGroup g w.groups.history = firstGroup h w.groups.history
  · rw [← hsame]
    exact part_laminar (hnodup _ (hs.first_mem hg)) _ _
  · refine .inl fun u hu hv => ?_
    exact hdisjoint _ (hs.first_mem hg) _ (hs.first_mem hh) hsame ((part_sub _ _).subset hu) ((part_sub _ _).subset hv)

/-- Two URLs are added, visited as one group, and the group is split. -/
def splitTwo : List Piece :=
  [.addUrl "http://a.b/" "ie" 5 1, .addUrl "http://c.d/" "ie" 5 2, .connect 0, .takeGroup 0 fun _ => 0, .awaitVisiting 0,
    .message 0 (visitEvent "start" "dac" "0" "0" (itemsOf ["http://a.b/", "http://c.d/"])),
    .message 0 (visitEvent "finish" "dac" "1" "0" (itemsOf ["http://a.b/", "http://c.d/"]))]

theorem groups_nested_split : let w := World.micros (groupsOf 2) .utc {} splitTwo
    (w.groups.urlsOf 1).Nodup ∧ ((w.groups.urlsOf 1).Disjoint (w.groups.urlsOf 2) ∨
      w.groups.urlsOf 1 <:+: w.groups.urlsOf 2 ∨ w.groups.urlsOf 2 <:+: w.groups.urlsOf 1) :=
  groups_nested (reaches_micros splitTwo) (by decide +kernel) (by decide +kernel)

end CaptureHPC
