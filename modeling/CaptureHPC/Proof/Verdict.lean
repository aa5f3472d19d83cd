import CaptureHPC.Proof.Events

/-!
# The verdict of a visit

A visit is a sequence of system-events and a finish, read while the connection is open.
`verdict_kept_iff` says when a visit that was seen to be malicious leaves a trace of it: a
malicious URL, or the two halves of the group on the queue.

* Under `dac` it always does.
* Under `bulk` the verdict of each URL comes from the changes of the process that the
  finish reports for it, and system-events of a group of one are not among them.
* Otherwise a group of several URLs passes no verdict on.
-/

namespace CaptureHPC

open Lib Client UrlGroup StateChangeHandler

variable {cfg : Config} {sdf : SimpleDateFormat} {w w' : World} {c g u : ℕ} {e fin : Element}
  {evs : List Element} {algorithm : String} {s s' : UrlGroupsController}

/-- The process id that the last item for each URL reports, by the URL's text. -/
def reported (g : ℕ) (s : UrlGroupsController) (items : List Element) : List (String × Int32) :=
  items.reverse.filterMap fun item => (named g s (item.get "url")).bind fun u =>
    (parseInt (item.get "processId")).map fun processId => ((s.urls.url u).url, processId)

/-- A forest with these roots has changes for the process. -/
def HasChanges (roots : List (Int32 × Int32)) (processId : Int32) : Prop :=
  Taken roots processId ∨ processId = 0 ∧ roots.length = 1

/-- The roots of a forest to which the changes of the events were added. -/
def rootsAfter (sdf : SimpleDateFormat) (handler : StateChangeHandler) (evs : List Element) :
    List (Int32 × Int32) := handler.roots ++ rootsOf handler.pids (evs.filterMap (changeOf sdf))

/-- The visit of `g` left a trace: a malicious URL, or two smaller groups with its URLs on
the queue. -/
def Detected (g : ℕ) (w w' : World) : Prop :=
  (∃ u ∈ (w.groups.group g).urlList, (w'.groups.urls.url u).malicious = some true) ∨
    ∃ g1 g2, w'.groups.urlGroupQueue = g2 :: g1 :: w.groups.urlGroupQueue ∧
      (w'.groups.group g1).urlList ++ (w'.groups.group g2).urlList = (w.groups.group g).urlList ∧
      (w'.groups.group g1).size < (w.groups.group g).size ∧
      (w'.groups.group g2).size < (w.groups.group g).size

/-- The events that are kept for the finish: those of a larger group under `bulk`. -/
def keptEvents (size : ℕ) (evs : List Element) : List Element := if 1 < size then evs else []

/-- When a malicious visit of `g` by `c` leaves a trace, by the algorithm. -/
def Detectable (sdf : SimpleDateFormat) (algorithm : String) (c g : ℕ) (w : World) (evs : List Element)
    (fin : Element) : Prop :=
  if algorithm = "dac" then True
  else if algorithm = "bulk" then
    ∃ u ∈ (w.groups.group g).urlList, ∃ processId,
      (reported g w.groups fin.childElements).lookup (w.groups.urls.url u).url = some processId ∧
      HasChanges (rootsAfter sdf (w.client c).stateChangeHandler (keptEvents (w.groups.group g).size evs)) processId
  else (w.groups.group g).size = 1 ∨
    ∃ u ∈ (w.groups.group g).urlList, (w.groups.urls.url u).malicious = some true

/-! ## The strings of changes -/

theorem getCSVofTree_ne (t : ProcessStateChange) : getCSVofTree sdf t ≠ "" := by
  have hline : ∀ fields, csvLine fields ≠ "" := by
    intro fields h
    have := congrArg String.length h
    simp [csvLine] at this
  cases hl : t.getAllStateChanges with
  | nil => exact absurd hl (getAllStateChanges_ne_nil t)
  | cons sc scs =>
    rw [getCSVofTree, hl, List.map_cons, String.join_cons]
    intro h
    have := (String.append_eq_empty_iff.1 h).1
    cases sc with
    | process r => exact hline _ this
    | object o => exact hline _ this

/-- The string for a process is empty exactly if the forest has no changes for it. -/
theorem getStateChangesCSV_ne (h : StateChangeHandler) (p : Int32) :
    getStateChangesCSV sdf h p ≠ "" ↔ HasChanges h.roots p := by
  have hfind : (∃ t ∈ h.processTrees, accepts p t = true) ↔ Taken h.roots p := by
    unfold Taken StateChangeHandler.roots
    simp only [List.mem_map, exists_exists_and_eq_and]
    refine exists_congr fun t => and_congr_right fun _ => ?_
    simp [accepts, ProcessStateChange.processId, ProcessStateChange.parentProcessId, ProcessNode.ids]
  unfold getStateChangesCSV HasChanges
  cases hf : h.processTrees.find? (accepts p) with
  | some t =>
    have ht : Taken h.roots p := hfind.1 ⟨t, List.mem_of_find?_eq_some hf, List.find?_some hf⟩
    exact ⟨fun _ => .inl ht, fun _ => getCSVofTree_ne t⟩
  | none =>
    have ht : ¬ Taken h.roots p := by
      rw [← hfind]
      rintro ⟨t, hmem, hacc⟩
      exact List.find?_eq_none.1 hf t hmem hacc
    have hlen : h.roots.length = h.processTrees.length := List.length_map _
    rw [hlen]
    dsimp only
    split
    · rename_i t hone
      rw [hone]
      by_cases hp : p = 0
      · rw [if_pos hp]
        exact ⟨fun _ => .inr ⟨hp, rfl⟩, fun _ => getCSVofTree_ne t⟩
      · rw [if_neg hp]
        refine ⟨fun hne => absurd rfl hne, ?_⟩
        rintro (h1 | ⟨h1, -⟩)
        · exact absurd h1 ht
        · exact absurd h1 hp
    · rename_i hmany
      refine ⟨fun hne => absurd rfl hne, ?_⟩
      rintro (h1 | ⟨-, h1⟩)
      · exact absurd h1 ht
      · obtain ⟨t, ht1⟩ := List.length_eq_one_iff.1 h1
        exact absurd ht1 (hmany t)

theorem lookup_map_snd {α β γ : Type} [BEq α] (l : List (α × β)) (f : β → γ) (a : α) :
    (l.map fun x => (x.1, f x.2)).lookup a = (l.lookup a).map f := by
  induction l with
  | nil => rfl
  | cons x l ih =>
    obtain ⟨b, y⟩ := x
    simp only [List.map_cons, List.lookup_cons, ih]
    cases a == b <;> rfl

theorem reported_congr (hframe : GroupFrame g s s') (items : List Element) :
    reported g s' items = reported g s items := by
  refine List.filterMap_congr fun item _ => ?_
  rw [named_congr hframe]
  exact congrArg (Option.bind _) (funext fun u => congrArg
    (fun text => (parseInt (item.get "processId")).map fun p => (text, p)) (hframe.urls.later u).url)

/-- The map of a finish has the string of the reported process for each text. -/
theorem ItemsRun.map_eq {finish : Bool} {handler : StateChangeHandler} {items : List Element} {map : UrlMap}
    (h : ItemsRun finish handler sdf g items s map s') :
    map = (reported g s items).map fun x => (x.1, getStateChangesCSV sdf handler x.2) := by
  induction h with
  | nil s => rfl
  | @cons item items s s1 s2 change map u processId major hframe hhead htail ih =>
    rw [ih, reported_congr hframe]
    have hone : reported g s (item :: items) = reported g s items ++ [((s.urls.url u).url, processId)] := by
      unfold reported
      rw [List.reverse_cons, List.filterMap_append, List.filterMap_cons, hhead.names, Option.bind_some, hhead.pid]
      rfl
    rw [hone, List.map_append, hhead.change]
    rfl

/-! ## The events of a visit -/

theorem addAll_append {h h1 h2 : StateChangeHandler} {as bs : List StateChange} : ∀ {ls ms : List Bool},
    addAll sdf h as = .ok (ls, h1) → addAll sdf h1 bs = .ok (ms, h2) →
      addAll sdf h (as ++ bs) = .ok (ls ++ ms, h2) := by
  induction as generalizing h with
  | nil =>
    intro ls ms he hb
    cases he
    exact hb
  | cons sc as ih =>
    intro ls ms he hb
    obtain ⟨h', m, hadd, -, -⟩ := add_records sdf h sc
    simp only [addAll, hadd, bind, Except.bind] at he
    cases hrest : addAll sdf h' as with
    | error exn =>
      rw [hrest] at he
      cases he
    | ok r =>
      obtain ⟨l, h3⟩ := r
      rw [hrest] at he
      cases he
      have := ih hrest hb
      simp only [List.cons_append, addAll, hadd, bind, Except.bind, this]

/-- The events of a visit under `bulk` are all added to the forest. -/
theorem events_bulk (hevs : ∀ e ∈ evs, e.name = "system-event") : ∀ {w : World}, Visit "bulk" c g w →
    1 < (w.groups.group g).size → w.turns cfg sdf c (evs.map .read) = some w' →
    Visit "bulk" c g w' ∧ w'.groups = w.groups ∧ ∃ bs, addAll sdf (w.client c).stateChangeHandler
      (evs.filterMap (changeOf sdf)) = .ok (bs, (w'.client c).stateChangeHandler) := by
  induction evs with
  | nil =>
    intro w hv _ h
    cases h
    exact ⟨hv, rfl, [], rfl⟩
  | cons e es ih =>
    intro w hv hsize h
    obtain ⟨w1, h1, hrest⟩ := Option.bind_eq_some_iff.1 h
    obtain ⟨hv1, hg1, bs, hadd⟩ := event_bulk hv (hevs e List.mem_cons_self) hsize ((turn_read hv.open_).1 h1)
    obtain ⟨hv', hg', bs', hadd'⟩ := ih (fun e he => hevs e (List.mem_cons_of_mem _ he)) hv1
      (by rw [hg1]; exact hsize) hrest
    have hcons : (e :: es).filterMap (changeOf sdf) = (changeOf sdf e).toList ++ es.filterMap (changeOf sdf) := by
      rw [List.filterMap_cons]
      cases changeOf sdf e <;> rfl
    refine ⟨hv', hg'.trans hg1, bs ++ bs', ?_⟩
    rw [hcons]
    exact addAll_append hadd hadd'

/-- The events that do not end the visit and are not kept blame the group, and its URL if
there is only one. -/
theorem events_blame (hb : ¬ (algorithm = "bulk" ∧ 1 < (w.groups.group g).size))
    (hd : ¬ (algorithm = "dac" ∧ 1 < (w.groups.group g).size)) (hv : Visit algorithm c g w)
    (hevs : ∀ e ∈ evs, e.name = "system-event") (h : w.turns cfg sdf c (evs.map .read) = some w') :
    w'.client c = w.client c ∧ GroupFrame g w.groups w'.groups ∧
      (w'.groups.group g).algorithm = (w.groups.group g).algorithm ∧
      (evs ≠ [] → (w'.groups.group g).malicious = true) ∧
      (algorithm ≠ "bulk" → 1 < (w.groups.group g).size → w'.groups.urls = w.groups.urls) := by
  induction evs generalizing w with
  | nil =>
    cases h
    exact ⟨rfl, refl _, rfl, fun hne => absurd rfl hne, fun _ _ => rfl⟩
  | cons e es ih =>
    obtain ⟨w1, h1, hrest⟩ := Option.bind_eq_some_iff.1 h
    obtain ⟨hc1, hrun⟩ := event_blames hv (hevs e List.mem_cons_self) hb hd ((turn_read hv.open_).1 h1)
    obtain ⟨hf1, hm1, ha1, -, hu1⟩ := setMaliciousOnEvent_ok hrun
    have hsize : (w1.groups.group g).size = (w.groups.group g).size := congrArg List.length hf1.urlList
    have hv1 : Visit algorithm c g w1 :=
      ⟨by rw [hc1]; exact hv.state, by rw [hc1]; exact hv.group, by rw [hc1]; exact hv.algorithm,
        by rw [hc1]; exact hv.open_⟩
    obtain ⟨hc, hf, ha, hm, hu⟩ := ih (by rw [hsize]; exact hb) (by rw [hsize]; exact hd) hv1
      (fun e he => hevs e (List.mem_cons_of_mem _ he)) hrest
    refine ⟨hc.trans hc1, hf1.trans hf, ha.trans (ha1 g), fun _ => ?_, fun hne hlt => ?_⟩
    · cases es with
      | nil =>
        cases hrest
        exact hm1
      | cons e' es => exact hm (by simp)
    · exact (hu hne (by rw [hsize]; exact hlt)).trans (hu1 hne hlt)

/-! ## The end of a visit -/

theorem detected_of_divided {x1 x2 : UrlGroup} (hqueue : s.urlGroupQueue = w.groups.urlGroupQueue)
    (hlist : (s.group g).urlList = (w.groups.group g).urlList) (hsize : 1 < (s.group g).size)
    (h : Divided g ((s.group g).withState .visited) x1 x2 s w'.groups) : Detected g w w' := by
  have hx : ((s.group g).withState .visited).urlList = (s.group g).urlList := rfl
  have hn : ((s.group g).withState .visited).size = (s.group g).size := rfl
  have hlen : (s.group g).urlList.length = (s.group g).size := rfl
  have hg1 : w'.groups.group s.size = x1 := by
    rw [h.group, Function.update_of_ne (by omega), Function.update_self]
  have hg2 : w'.groups.group (s.size + 1) = x2 := by rw [h.group, Function.update_self]
  have hold : (w.groups.group g).size = (s.group g).size := by rw [UrlGroup.size, ← hlist]; rfl
  refine .inr ⟨s.size, s.size + 1, by rw [h.queue, hqueue], ?_, ?_, ?_⟩
  · rw [hg1, hg2, h.first.urlList, h.second.urlList, hx, hn, List.take_append_drop, hlist]
  · rw [hg1, hold, UrlGroup.size, h.first.urlList, hx, hn, List.length_take]
    omega
  · rw [hg2, hold, UrlGroup.size, h.second.urlList, hx, hn, List.length_drop]
    omega

/-- When the queue is as before, only a malicious URL is a trace. -/
theorem detected_iff_of_queue (hqueue : w'.groups.urlGroupQueue = w.groups.urlGroupQueue) : Detected g w w' ↔
    ∃ u ∈ (w.groups.group g).urlList, (w'.groups.urls.url u).malicious = some true := by
  refine ⟨fun h => ?_, .inl⟩
  rcases h with h | ⟨g1, g2, hq, -⟩
  · exact h
  · rw [hqueue] at hq
    have := congrArg List.length hq
    rw [List.length_cons, List.length_cons] at this
    omega

/-- Under `bulk` the map of state changes decides. -/
theorem setMaliciousByMap_ok {b : Bool} {map : UrlMap} {t t' : UrlsController}
    (h : (setMaliciousByMap b (some map) u).run t = .ok () t') :
    ∃ csv, map.lookup (t'.url u).url = some csv ∧ (t'.url u).malicious = some (decide (csv ≠ "")) := by
  have hurl := (((keeps_setMaliciousByMap (L := [u]) (by simp) b (some map)).of_ok h).later u).url
  unfold setMaliciousByMap at h
  rw [EStateM.run_bind, EStateM.run_get] at h
  dsimp only at h
  cases hl : map.lookup (t.url u).url with
  | none =>
    rw [hl] at h
    cases h
  | some csv =>
    rw [hl] at h
    refine ⟨csv, by rw [hurl]; exact hl, ?_⟩
    cases h
    exact congrArg Url.malicious (setUrl_self _ _)

/-- **The trace that a finish leaves.** -/
theorem finish_detected (hg : (w.client c).visitingUrlGroup = some g)
    (halg : (w.groups.group g).algorithm = some algorithm) (hname : fin.name = "visit-event")
    (htype : fin.get "type" = some "finish") (hfin : fin.get "algorithm" = some algorithm)
    (hseen : algorithm = "bulk" ∨ (w.groups.group g).malicious = true ∨ fin.get "malicious" = some "1")
    (h : (handleMessage cfg sdf c fin).run w = .ok () w') : Detected g w w' ↔
      if algorithm = "dac" then True
      else if algorithm = "bulk" then ∃ u ∈ (w.groups.group g).urlList, ∃ processId,
        (reported g w.groups fin.childElements).lookup (w.groups.urls.url u).url = some processId ∧
          HasChanges (w.client c).stateChangeHandler.roots processId
      else (w.groups.group g).size = 1 ∨
        ∃ u ∈ (w.groups.group g).urlList, (w.groups.urls.url u).malicious = some true := by
  obtain ⟨s1, s2, s3, s4, map, b, hrun⟩ := finish_ok hg hname htype hfin h
  have hf4 : GroupFrame g s3 s4 := (frame_setMalicious _ b _).of_ok hrun.verdict
  have hframe : GroupFrame g w.groups s4 := hrun.frame.trans hf4
  have hgroup4 : s4.group g = { s3.group g with malicious := b } := by
    have := setMalicious_group (g := g) (some algorithm) b (some map) s3
    rw [hrun.verdict] at this
    rw [show s4.group = _ from this, Function.update_self]
  have halg4 : (s4.group g).algorithm = some algorithm := by
    rw [hgroup4]
    exact (congrArg Prod.snd (hrun.same g)).trans halg
  have hmal4 : (s4.group g).malicious = b := by rw [hgroup4]
  obtain ⟨-, hsame, -, -⟩ := visited_ok hrun.visited
  have hverdict := setMalicious_urls hrun.verdict
  obtain ⟨t, ht, hs4⟩ := run_zoom_eq_ok hverdict
  have ht4 : s4.urls = t := by rw [hs4]
  have hmal : ∀ u, (w'.groups.urls.url u).malicious = (t.url u).malicious := fun u => by rw [hsame u, ht4]
  have hlist3 : (s3.group g).urlList = (w.groups.group g).urlList := hrun.frame.urlList
  have hurls3 : (s3.setGroup g { s3.group g with malicious := b }).urls = s3.urls := rfl
  rw [hurls3, hlist3] at ht
  have hsize4 : (s4.group g).size = (w.groups.group g).size := congrArg List.length hframe.urlList
  have hpos := List.length_pos_of_ne_nil (w.groups.group g).nonempty
  -- a malicious verdict reaches the only URL of a group
  have hone : algorithm ≠ "bulk" → b = true → (w.groups.group g).size = 1 →
      ∃ u ∈ (w.groups.group g).urlList, (w'.groups.urls.url u).malicious = some true := by
    intro hbulk hb hsize
    obtain ⟨u, hu⟩ := List.length_eq_one_iff.1 hsize
    rw [if_neg hbulk, hb, if_neg (by decide), hu] at ht
    cases ht
    refine ⟨u, by rw [hu]; exact List.mem_singleton_self u, ?_⟩
    rw [hmal]
    exact congrArg Url.malicious (setUrl_self _ _)
  by_cases hdac : algorithm = "dac"
  · have hbulk : algorithm ≠ "bulk" := by rw [hdac]; decide
    have hb : b = true := hrun.seen.2 (hseen.resolve_left hbulk)
    rw [if_pos hdac]
    refine iff_of_true ?_ trivial
    by_cases hsize : (w.groups.group g).size = 1
    · exact .inl (hone hbulk hb hsize)
    · have hlt : 1 < (s4.group g).size := by
        rw [hsize4]
        have : (w.groups.group g).urlList.length = (w.groups.group g).size := rfl
        omega
      have hsplits : (s4.group g).splits = true := by
        rw [splits, halg4, hmal4, hb, hdac, decide_eq_true hlt]
        rfl
      obtain ⟨x1, x2, hdiv⟩ := visited_divided hsplits hrun.visited
      exact detected_of_divided hframe.queue hframe.urlList hlt hdiv
  · rw [if_neg hdac]
    have hsplits : (s4.group g).splits = false := by
      cases hs : (s4.group g).splits with
      | false => rfl
      | true =>
        have := algorithm_of_splits hs
        rw [halg4] at this
        exact absurd (Option.some.inj this) hdac
    rw [detected_iff_of_queue ((visited_kept hsplits hrun.visited).queue.trans hframe.queue)]
    by_cases hbulk : algorithm = "bulk"
    · rw [if_pos hbulk] at ht ⊢
      have hQ := forM_urls (Q := fun u x => ∃ csv, map.lookup x.url = some csv ∧ x.malicious = some (decide (csv ≠ "")))
        (fun u _ => keeps_setMaliciousByMap (by simp) b (some map))
        (fun u _ t t' _ hr => setMaliciousByMap_ok hr) ht
      refine exists_congr fun u => and_congr_right fun hu => ?_
      obtain ⟨csv, hlookup, hmalu⟩ := hQ u hu
      have htext : (t.url u).url = (w.groups.urls.url u).url := by
        rw [← ht4]
        exact (hframe.urls.later u).url
      rw [hrun.items.map_eq, lookup_map_snd, htext, reported_congr hrun.time] at hlookup
      obtain ⟨p, hp, hcsv⟩ := Option.map_eq_some_iff.1 hlookup
      rw [hmal, hmalu, Option.some.injEq, decide_eq_true_eq, ← hcsv, getStateChangesCSV_ne]
      constructor
      · exact fun hch => ⟨p, hp, hch⟩
      · rintro ⟨p', hp', hch⟩
        rw [hp] at hp'
        cases hp'
        exact hch
    · rw [if_neg hbulk] at ht ⊢
      have hb : b = true := hrun.seen.2 (hseen.resolve_left hbulk)
      by_cases hsize : (w.groups.group g).size = 1
      · exact iff_of_true (hone hbulk hb hsize) (.inl hsize)
      · -- a group of several URLs passes no verdict on
        have hsame3 : ∀ u, (t.url u).malicious = (w.groups.urls.url u).malicious := by
          have htw : t = s3.urls := by
            rw [hb, if_neg (by decide)] at ht
            revert ht
            split
            · rename_i u hu
              rw [UrlGroup.size, hu] at hsize
              exact absurd rfl hsize
            · intro ht
              cases ht
              rfl
          intro u
          rw [htw, hrun.quiet hbulk, hrun.items.verdict u, hrun.urls]
        simp only [hmal, hsame3]
        constructor
        · exact .inr
        · exact fun hor => hor.resolve_left hsize

/-- Events that change neither the queue nor the URLs of the group leave the question of a
trace to what follows. -/
theorem detected_congr {w1 : World} (h : GroupFrame g w.groups w1.groups) :
    Detected g w1 w' ↔ Detected g w w' := by
  have hsize : (w1.groups.group g).size = (w.groups.group g).size := congrArg List.length h.urlList
  unfold Detected
  rw [h.queue, h.urlList, hsize]

/-- **When a malicious visit leaves a trace.** A system-event was read or the finish says
malicious, and all messages of the visit were handled or came after its end. -/
theorem verdict_kept_iff (hv : Visit algorithm c g w) (halg : (w.groups.group g).algorithm = some algorithm)
    (hevs : ∀ e ∈ evs, e.name = "system-event") (hname : fin.name = "visit-event")
    (htype : fin.get "type" = some "finish") (hfin : fin.get "algorithm" = some algorithm)
    (hseen : evs ≠ [] ∨ fin.get "malicious" = some "1")
    (h : w.turns cfg sdf c ((evs ++ [fin]).map .read) = some w') :
    Detected g w w' ↔ Detectable sdf algorithm c g w evs fin := by
  rw [List.map_append, turns_append] at h
  obtain ⟨w1, h1, hlast⟩ := Option.bind_eq_some_iff.1 h
  have hread : ∀ {w1 : World}, (w1.client c).socketOpen = true → w1.turns cfg sdf c [.read fin] = some w' →
      (handleMessage cfg sdf c fin).run w1 = .ok () w' := by
    intro w1 hopen hl
    obtain ⟨w2, h2, hnil⟩ := Option.bind_eq_some_iff.1 hl
    cases hnil
    exact (turn_read hopen).1 h2
  unfold Detectable
  by_cases hdac : algorithm = "dac" ∧ 1 < (w.groups.group g).size
  · obtain ⟨rfl, hsize⟩ := hdac
    rw [if_pos rfl]
    refine iff_of_true ?_ trivial
    cases evs with
    | nil =>
      cases h1
      exact (finish_detected hv.group halg hname htype hfin (.inr (.inr (hseen.resolve_left (by simp))))
        (hread hv.open_ hlast)).2 (by rw [if_pos rfl]; trivial)
    | cons e es =>
      -- the first event splits the group and closes the connection
      obtain ⟨w2, h2, hes⟩ := Option.bind_eq_some_iff.1 h1
      obtain ⟨s1, s4, hmal, hframe4, hsame, hvis, -, hclosed⟩ :=
        event_dac hv (hevs e List.mem_cons_self) hsize ((turn_read hv.open_).1 h2)
      have hw2 : w2.turns cfg sdf c (es.map .read) = some w2 := turns_closed hclosed es
      obtain rfl : w2 = w1 := Option.some.inj (hw2.symm.trans hes)
      obtain rfl : w2 = w' := Option.some.inj ((turns_closed hclosed [fin]).symm.trans hlast)
      have hgroup : s1.group g = { w.groups.group g with malicious := true } := by
        have := setMalicious_group (g := g) (some "dac") true none w.groups
        rw [hmal] at this
        rw [show s1.group = _ from this, Function.update_self]
      have hframe : GroupFrame g w.groups s4 := ((frame_setMalicious _ true _).of_ok hmal).trans hframe4
      have hsize4 : (s4.group g).size = (w.groups.group g).size := congrArg List.length hframe.urlList
      have hm : (s4.group g).malicious = true := by
        rw [show (s4.group g).malicious = (s1.group g).malicious from congrArg Prod.fst (hsame g), hgroup]
      have ha : (s4.group g).algorithm = some "dac" := by
        rw [show (s4.group g).algorithm = (s1.group g).algorithm from congrArg Prod.snd (hsame g), hgroup]
        exact halg
      have hsplits : (s4.group g).splits = true := by
        rw [splits, ha, hm, hsize4, decide_eq_true hsize]
        rfl
      obtain ⟨x1, x2, hdiv⟩ := visited_divided hsplits hvis
      exact detected_of_divided hframe.queue hframe.urlList (by rw [hsize4]; exact hsize) hdiv
  by_cases hbulk : algorithm = "bulk" ∧ 1 < (w.groups.group g).size
  · obtain ⟨rfl, hsize⟩ := hbulk
    obtain ⟨hv1, hg1, bs, hadd⟩ := events_bulk hevs hv hsize h1
    have hroots := addAll_roots (evs.filterMap (changeOf sdf)) (fun p => Iff.rfl) hadd
    have hiff := finish_detected hv1.group (by rw [hg1]; exact halg) hname htype hfin (.inl rfl) (hread hv1.open_ hlast)
    rw [hg1, hroots, detected_congr (w := w) (by rw [hg1]; exact refl _)] at hiff
    rw [hiff, keptEvents, if_pos hsize]
    rfl
  · obtain ⟨hc1, hf1, ha1, hm1, hu1⟩ := events_blame hbulk hdac hv hevs h1
    have hg1 : (w1.client c).visitingUrlGroup = some g := by rw [hc1]; exact hv.group
    have hseen1 : algorithm = "bulk" ∨ (w1.groups.group g).malicious = true ∨ fin.get "malicious" = some "1" :=
      .inr (hseen.imp hm1 id)
    have hiff := finish_detected hg1 (ha1.trans halg) hname htype hfin hseen1
      (hread (by rw [hc1]; exact hv.open_) hlast)
    have hsize1 : (w1.groups.group g).size = (w.groups.group g).size := congrArg List.length hf1.urlList
    rw [detected_congr hf1] at hiff
    rw [hiff, hf1.urlList, reported_congr hf1, hsize1, hc1]
    by_cases hb : algorithm = "bulk"
    · have hkept : keptEvents (w.groups.group g).size evs = [] := by
        unfold keptEvents
        rw [if_neg fun hlt => hbulk ⟨hb, hlt⟩]
      have hr : rootsAfter sdf (w.client c).stateChangeHandler [] = (w.client c).stateChangeHandler.roots := by
        rw [rootsAfter, List.filterMap_nil, rootsOf, List.append_nil]
      rw [hkept, hr]
      have htext : ∀ u, (w1.groups.urls.url u).url = (w.groups.urls.url u).url := fun u => (hf1.urls.later u).url
      simp only [if_pos hb, htext]
    · simp only [if_neg hb]
      by_cases hone : (w.groups.group g).size = 1
      · simp only [hone, true_or]
      · have hlt : 1 < (w.groups.group g).size := by
          have := List.length_pos_of_ne_nil (w.groups.group g).nonempty
          have : (w.groups.group g).urlList.length = (w.groups.group g).size := rfl
          omega
        rw [hu1 hb hlt]

/-! ## A group of two under `dac`, and a group of one under `bulk` -/

/-- Under `dac` the first event puts the two URLs on the queue again, one by one. -/
theorem verdict_kept_iff_dac : ∃ w w', World.runs (groupsOf 2) .utc {}
      (visitOf "dac" ["http://a.b/", "http://c.d/"]) = some w ∧
    w.turns (groupsOf 2) .utc 0 (([fileEvent "10" "a", fileEvent "10" "b"] ++
      [visitEvent "finish" "dac" "0" "0" (itemsOf ["http://a.b/", "http://c.d/"])]).map .read) = some w' ∧
    Detected 0 w w' := by
  obtain ⟨w', hw'⟩ := Option.isSome_iff_exists.1 (show ((World.reached (groupsOf 2) .utc
    (visitOf "dac" ["http://a.b/", "http://c.d/"])).turns (groupsOf 2) .utc 0
      (([fileEvent "10" "a", fileEvent "10" "b"] ++ [visitEvent "finish" "dac" "0" "0"
        (itemsOf ["http://a.b/", "http://c.d/"])]).map .read)).isSome = true by decide +kernel)
  exact ⟨_, w', World.runs_reached (by decide +kernel), hw', (verdict_kept_iff
    (show Visit "dac" 0 0 _ from ⟨by decide +kernel, by decide +kernel, by decide +kernel, by decide +kernel⟩) (by decide +kernel)
    (by decide) rfl rfl rfl (.inl (by simp)) hw').2 (by unfold Detectable; rw [if_pos rfl]; trivial)⟩

/-- **The verdict of a group of one is lost under `bulk`**: an event makes the URL
malicious, and the finish makes it benign, since the change was not kept. -/
theorem bulk_losesVerdict : ∃ w w', World.runs (groupsOf 1) .utc {} (visitOf "bulk" ["http://a.b/"]) = some w ∧
    Visit "bulk" 0 0 w ∧ (w.groups.group 0).algorithm = some "bulk" ∧
    w.turns (groupsOf 1) .utc 0 (([fileEvent "10" "a"] ++
      [visitEvent "finish" "bulk" "0" "0" (itemsOf ["http://a.b/"])]).map .read) = some w' ∧
    ¬ Detected 0 w w' := by
  have hturns : ∀ o : Option World, o.isSome = true → o = some (o.getD {}) := by
    intro o ho
    obtain ⟨w, rfl⟩ := Option.isSome_iff_exists.1 ho
    rfl
  refine ⟨_, _, World.runs_reached (by decide +kernel),
    ⟨by decide +kernel, by decide +kernel, by decide +kernel, by decide +kernel⟩, by decide +kernel,
    hturns _ (by decide +kernel), ?_⟩
  rw [detected_iff_of_queue (by decide +kernel)]
  decide +kernel

end CaptureHPC
