import CaptureHPC.Proof.Handlers
import CaptureHPC.Proof.Taking
import CaptureHPC.Lib.Machine
import CaptureHPC.Spec.Execution

/-!
# Which URL an item names

`addUrl` admits a URL when no queued URL has the same encoding (ignoring case), program and
visit time. `getUrl` finds the first URL of a group with the item's encoding, ignoring case.

* `items_resolve_iff`: each item finds its own URL, and start and finish set the times of all
  URLs, exactly when the URLs that the group is made of are apart: no two of them have the
  same encoding.
* `apart_iff_uniform`: after any sequence of offers, URLs polled together are apart exactly
  when those with one encoding agree in program and visit time, which admission does not ask.
-/

namespace CaptureHPC

open Lib Client UrlGroup UrlGroupsController

variable {sdf : SimpleDateFormat} {g u v : ℕ} {s s' : UrlGroupsController} {t t' : UrlsController} {L : List ℕ}

/-! ## Encodings -/

/-- The URLs have the same encoding, ignoring case. -/
def SameText (t : UrlsController) (u v : ℕ) : Prop :=
  equalsIgnoreCase (t.url u).escapedUrl (t.url v).escapedUrl = true

instance : Decidable (SameText t u v) :=
  inferInstanceAs (Decidable (equalsIgnoreCase (t.url u).escapedUrl (t.url v).escapedUrl = true))

/-- No two URLs of the list have the same encoding. -/
def Apart (t : UrlsController) (L : List ℕ) : Prop := ∀ u ∈ L, ∀ v ∈ L, SameText t u v → u = v

instance : Decidable (Apart t L) := inferInstanceAs (Decidable (∀ u ∈ L, ∀ v ∈ L, SameText t u v → u = v))

theorem equalsIgnoreCase_iff {a b : String} :
    equalsIgnoreCase a b = true ↔ a.toList.map Char.toLower = b.toList.map Char.toLower := by
  unfold equalsIgnoreCase
  exact beq_iff_eq

theorem SameText.rfl' : SameText t u u := equalsIgnoreCase_iff.2 rfl

theorem SameText.symm (h : SameText t u v) : SameText t v u :=
  equalsIgnoreCase_iff.2 (equalsIgnoreCase_iff.1 h).symm

theorem SameText.trans {w : ℕ} (h : SameText t u v) (h' : SameText t v w) : SameText t u w :=
  equalsIgnoreCase_iff.2 ((equalsIgnoreCase_iff.1 h).trans (equalsIgnoreCase_iff.1 h'))

theorem sameText_congr (ht : Same Url.url t t') (u v : ℕ) : SameText t' u v ↔ SameText t u v := by
  unfold SameText Url.escapedUrl
  rw [ht u, ht v]

theorem apart_congr (ht : Same Url.url t t') (L : List ℕ) : Apart t' L ↔ Apart t L := by
  unfold Apart
  simp only [sameText_congr ht]

/-! ## Items -/

/-- Each item of the group's visit-event finds its own URL. -/
def OwnItems (g : ℕ) (s : UrlGroupsController) : Prop :=
  ∀ u ∈ (s.group g).urlList, (getUrl g (some (s.urls.url u).escapedUrl)).run s = .ok u s

/-- The items name the URLs of the group: each item one of them, and each of them an item. -/
structure ListsUrls (g : ℕ) (s : UrlGroupsController) (items : List Element) : Prop where
  item : ∀ item ∈ items, ∃ u ∈ (s.group g).urlList, item.get "url" = some (s.urls.url u).escapedUrl
  url : ∀ u ∈ (s.group g).urlList, ∃ item ∈ items, item.get "url" = some (s.urls.url u).escapedUrl

/-- The loops of start and of a later finish return and set the times of all URLs, however
the URLs are listed and whatever happens to them in between. -/
def TimesSet (sdf : SimpleDateFormat) (g : ℕ) (s : UrlGroupsController) : Prop :=
  ∀ items, ListsUrls g s items → ∃ s1, (forM items (startItem g)).run s = .ok () s1 ∧
    (∀ u ∈ (s.group g).urlList, (s1.urls.url u).visitStartTime.isSome) ∧
    ∀ s2 items2 handler, (s2.group g).urlList = (s.group g).urlList →
      (∀ u, (s1.urls.url u).Later (s2.urls.url u)) → ListsUrls g s items2 →
      (∀ item ∈ items2, Conforms true item) →
      ∃ map s3, (parseItems true handler sdf g items2).run s2 = .ok map s3 ∧
        ∀ u ∈ (s.group g).urlList, (s3.urls.url u).visitStartTime.isSome ∧ (s3.urls.url u).visitFinishTime.isSome

/-- The item of a URL names the first URL of the group with its encoding. -/
theorem named_escapedUrl (g : ℕ) (s : UrlGroupsController) (u : ℕ) :
    named g s (some (s.urls.url u).escapedUrl) = (s.group g).urlList.find? fun v =>
      equalsIgnoreCase (s.urls.url v).escapedUrl (s.urls.url u).escapedUrl := by
  have hdec : urlDecode (s.urls.url u).escapedUrl = some (s.urls.url u).url := urlDecode_urlEncode _
  unfold named
  rw [Option.bind_some, hdec, Option.bind_some]
  rfl

theorem named_own (h : Apart s.urls (s.group g).urlList) (hu : u ∈ (s.group g).urlList) :
    named g s (some (s.urls.url u).escapedUrl) = some u := by
  rw [named_escapedUrl]
  cases hfind : (s.group g).urlList.find? fun v =>
      equalsIgnoreCase (s.urls.url v).escapedUrl (s.urls.url u).escapedUrl with
  | none => exact absurd SameText.rfl' (List.find?_eq_none.1 hfind u hu)
  | some v =>
    have hmem := List.mem_of_find?_eq_some hfind
    have htext := List.find?_some hfind
    rw [h v hmem u hu htext]

/-- **Items find their own URLs exactly in a group whose URLs are apart.** -/
theorem ownItems_iff : OwnItems g s ↔ Apart s.urls (s.group g).urlList := by
  constructor
  · intro h u hu v hv huv
    have hpred : (fun w => equalsIgnoreCase (s.urls.url w).escapedUrl (s.urls.url u).escapedUrl) =
        fun w => equalsIgnoreCase (s.urls.url w).escapedUrl (s.urls.url v).escapedUrl := by
      funext w
      exact Bool.eq_iff_iff.2 ⟨fun hw => SameText.trans hw huv, fun hw => SameText.trans hw huv.symm⟩
    have hname := (getUrl_ok (h u hu)).2
    have hname' := (getUrl_ok (h v hv)).2
    rw [named_escapedUrl, hpred] at hname
    rw [named_escapedUrl] at hname'
    exact Option.some.inj (hname.symm.trans hname')
  · exact fun h u hu => getUrl_run (named_own h hu)

/-! ## The loops of start and finish -/

/-- An item of start gives the URL that it names a start time. -/
theorem startItem_run {item : Element} (hn : named g s (item.get "url") = some u) : (startItem g item).run s =
    .ok () { s with urls := s.urls.setUrl u { s.urls.url u with visitStartTime := some s.urls.now } } :=
  (run_bind_ok (getUrl_run hn)).trans rfl

/-- The loop of start over items that name URLs of the group. -/
theorem startItems_run {items : List Element} (hnames : ∀ item ∈ items, (named g s (item.get "url")).isSome) :
    ∃ s1, (forM items (startItem g)).run s = .ok () s1 ∧ GroupFrame g s s1 ∧
      ∀ item ∈ items, ∀ u, named g s (item.get "url") = some u → (s1.urls.url u).visitStartTime.isSome := by
  refine forM_ok (I := fun (d : List Element) s1 => GroupFrame g s s1 ∧
    ∀ item ∈ d, ∀ u, named g s (item.get "url") = some u → (s1.urls.url u).visitStartTime.isSome)
    ⟨refl s, by simp⟩ ?_
  intro d item r s1 hl ⟨hframe, hd⟩
  obtain ⟨v, hv⟩ := Option.isSome_iff_exists.1 (hnames item (by rw [hl]; simp))
  have hv1 : named g s1 (item.get "url") = some v := (named_congr hframe _).trans hv
  have hrun := startItem_run hv1
  have hstep := (frame_startItem item).of_ok hrun
  refine ⟨_, hrun, hframe.trans hstep, fun it hit u hu => ?_⟩
  rcases List.mem_append.1 hit with hit | hit
  · exact (hstep.urls.later u).started (hd it hit u hu)
  · obtain rfl := List.mem_singleton.1 hit
    obtain rfl : v = u := Option.some.inj (hv.symm.trans hu)
    show ((s1.urls.setUrl v _).url v).visitStartTime.isSome
    rw [setUrl_self]
    rfl

/-- In a group whose URLs are apart, an item that names a URL's text names the URL. -/
theorem ListsUrls.named {items : List Element} (h : ListsUrls g s items) (ha : Apart s.urls (s.group g).urlList)
    {item : Element} (hitem : item ∈ items) : ∃ u ∈ (s.group g).urlList, named g s (item.get "url") = some u := by
  obtain ⟨u, hu, htext⟩ := h.item item hitem
  exact ⟨u, hu, by rw [htext, named_own ha hu]⟩

/-- **Start and finish set all times** in a group whose URLs are apart. -/
theorem timesSet_of_apart (ha : Apart s.urls (s.group g).urlList) : TimesSet sdf g s := by
  intro items hitems
  obtain ⟨s1, h1, hframe, hstarted⟩ := startItems_run (g := g) (s := s) fun item hitem => by
    obtain ⟨u, -, hu⟩ := hitems.named ha hitem
    rw [hu]
    rfl
  have hall : ∀ u ∈ (s.group g).urlList, (s1.urls.url u).visitStartTime.isSome := by
    intro u hu
    obtain ⟨item, hitem, htext⟩ := hitems.url u hu
    exact hstarted item hitem u (by rw [htext, named_own ha hu])
  refine ⟨s1, h1, hall, fun s2 items2 handler hlist hlater hitems2 hconf => ?_⟩
  -- the names mean in `s2` what they mean in `s`
  have hname2 : ∀ uri, CaptureHPC.named g s2 uri = CaptureHPC.named g s uri :=
    named_later hlist fun u => (hframe.urls.later u).trans (hlater u)
  obtain ⟨map, s3, h3⟩ := parseItems_returns handler sdf (g := g) (s := s2) fun item hitem => by
    obtain ⟨u, -, hu⟩ := hitems2.named ha hitem
    exact ⟨hconf item hitem, by rw [hname2, hu]; rfl⟩
  have hrun := parseItems_ok h3
  refine ⟨map, s3, h3, fun u hu => ⟨(hrun.frame.urls.later u).started ((hlater u).started (hall u hu)), ?_⟩⟩
  obtain ⟨item, hitem, htext⟩ := hitems2.url u hu
  exact hrun.finished hitem (by rw [hname2, htext, named_own ha hu])

/-! ## What admission ensures -/

/-- Texts that are the same have one program and one visit time. -/
def Uniform (t : UrlsController) (L : List ℕ) : Prop := ∀ u ∈ L, ∀ v ∈ L, SameText t u v →
  (t.url u).clientProgram = (t.url v).clientProgram ∧ (t.url u).visitTime = (t.url v).visitTime

/-- What admission asks of two queued URLs. -/
def Differ (t : UrlsController) (u v : ℕ) : Prop := ¬ (SameText t u v ∧
  (t.url u).clientProgram = (t.url v).clientProgram ∧ (t.url u).visitTime = (t.url v).visitTime)

theorem Differ.symm (h : Differ t u v) : Differ t v u := fun ⟨h1, h2, h3⟩ => h ⟨h1.symm, h2.symm, h3.symm⟩

instance : Std.Symm (Differ t) := ⟨fun _ _ => Differ.symm⟩

/-- No queued URL is a duplicate of another. -/
structure Deduped (t : UrlsController) : Prop where
  known : ∀ u ∈ t.urlQueue, u < t.size
  differ : t.urlQueue.Pairwise (Differ t)

/-- What happens to `urlQueue`. -/
inductive QueueAction
  | offer (x : Url)
  | take (groupSize : ℤ) (picks : ℕ → ℕ)

/-- A URL is offered, or URLs are polled for a group. -/
def queueStep (t : UrlsController) : QueueAction → Option UrlsController
  | .offer x => some (t.addUrl x)
  | .take groupSize picks => some (polled groupSize picks t).2

theorem differ_congr {u v : ℕ} (hu : t'.url u = t.url u) (hv : t'.url v = t.url v) : Differ t' u v ↔ Differ t u v := by
  unfold Differ SameText
  rw [hu, hv]

theorem deduped_addUrl (h : Deduped t) (x : Url) : Deduped (t.addUrl x) := by
  unfold UrlsController.addUrl
  split_ifs with hin
  · exact ⟨h.known, h.differ⟩
  · have hold : ∀ u ∈ t.urlQueue, Function.update t.url t.size x u = t.url u := fun u hu =>
      Function.update_of_ne (h.known u hu).ne _ _
    constructor
    · intro u hu
      rcases List.mem_append.1 hu with hu | hu
      · exact Nat.lt_succ_of_lt (h.known u hu)
      · rw [List.mem_singleton.1 hu]
        exact Nat.lt_succ_self _
    · refine List.pairwise_append.2 ⟨?_, List.pairwise_singleton _ _, fun u hu v hv => ?_⟩
      · exact h.differ.imp_of_mem fun hu hv => (differ_congr (hold _ hu) (hold _ hv)).2
      · obtain rfl := List.mem_singleton.1 hv
        rintro ⟨htext, hprogram, htime⟩
        -- the new URL is not a duplicate of `u`
        change equalsIgnoreCase (Function.update t.url t.size x u).escapedUrl
          (Function.update t.url t.size x t.size).escapedUrl = true at htext
        change (Function.update t.url t.size x u).clientProgram =
          (Function.update t.url t.size x t.size).clientProgram at hprogram
        change (Function.update t.url t.size x u).visitTime =
          (Function.update t.url t.size x t.size).visitTime at htime
        rw [hold u hu, Function.update_self] at htext hprogram htime
        apply hin
        refine List.any_eq_true.2 ⟨u, hu, ?_⟩
        have hsym := equalsIgnoreCase_iff.2 (equalsIgnoreCase_iff.1 htext).symm
        simp only [hsym, hprogram, htime, beq_self_eq_true, Bool.and_self]

theorem deduped_polled (h : Deduped t) (groupSize : ℤ) (picks : ℕ → ℕ) : Deduped (polled groupSize picks t).2 := by
  obtain ⟨heq, hperm⟩ := takeUrls_perm picks (initialUrlGroupSize groupSize t.urlQueue.length).toNat t
  have hdiffer := (hperm.pairwise_iff Differ.symm).1 h.differ
  rw [polled, heq]
  exact ⟨fun u hu => h.known u (hperm.mem_iff.2 (List.mem_append_right _ hu)), (List.pairwise_append.1 hdiffer).2.1⟩

/-- **After any sequence of offers**, between which groups are taken, the URLs polled for a
group are apart exactly when the same text comes with the same program and visit time. -/
theorem apart_iff_uniform (h : Reaches queueStep anyStep {} t) (groupSize : ℤ) (picks : ℕ → ℕ) :
    Apart t (polled groupSize picks t).1 ↔ Uniform t (polled groupSize picks t).1 := by
  have hdedup : Deduped t := by
    refine Reaches.invariant ⟨by simp, List.Pairwise.nil⟩ (fun t a t' ht _ hstep => ?_) h
    cases a with
    | offer x =>
      obtain rfl := Option.some.inj hstep
      exact deduped_addUrl ht x
    | take groupSize picks =>
      obtain rfl := Option.some.inj hstep
      exact deduped_polled ht groupSize picks
  have hperm := (takeUrls_perm picks (initialUrlGroupSize groupSize t.urlQueue.length).toNat t).2
  constructor
  · intro ha u hu v hv huv
    rw [ha u hu v hv huv]
    exact ⟨rfl, rfl⟩
  · intro hun u hu v hv huv
    by_contra hne
    have hdiffer := hdedup.differ.forall (hperm.mem_iff.2 (List.mem_append_left _ hu))
      (hperm.mem_iff.2 (List.mem_append_left _ hv)) hne
    exact hdiffer ⟨huv, hun u hu v hv huv⟩

/-! ## The groups that are taken -/

/-- The URLs that the next group is made of: those of the group on top of the stack, else
the URLs polled. -/
def nextUrls (groupSize : ℤ) (picks : ℕ → ℕ) (s : UrlGroupsController) : List ℕ :=
  match s.urlGroupQueue with
  | g :: _ => (s.group g).urlList
  | [] => (polled groupSize picks s.urls).1

variable {groupSize : ℤ} {picks : ℕ → ℕ} {c : ℕ}

theorem TakeRun.urls (h : TakeRun groupSize picks c s (some g) s') :
    (s'.group g).urlList = nextUrls groupSize picks s ∧ Same Url.url s.urls s'.urls := by
  unfold nextUrls
  cases h with
  | popped hq =>
    rw [hq]
    exact ⟨rfl, fun _ => rfl⟩
  | fresh hq hnew hframe hlabel =>
    rw [hq]
    refine ⟨?_, fun u => ?_⟩
    · show (Function.update s.group s.size _ s.size).urlList = _
      rw [Function.update_self]
      exact hnew.urlList
    · exact (hframe.later u).url.trans (congrArg Url.url (congrFun (polled_url groupSize picks s.urls) u))

/-- **Items resolve to distinct URLs exactly when the URLs of the group are apart**, for
every group that is taken in any state. -/
theorem items_resolve_iff (h : (takeUrlGroup groupSize picks c).run s = .ok (some g) s') :
    OwnItems g s' ∧ TimesSet sdf g s' ↔ Apart s.urls (nextUrls groupSize picks s) := by
  obtain ⟨hlist, hsame⟩ := (takeUrlGroup_ok h).urls
  rw [← apart_congr hsame, ← hlist]
  exact ⟨fun ⟨hown, _⟩ => ownItems_iff.1 hown, fun ha => ⟨ownItems_iff.2 ha, timesSet_of_apart ha⟩⟩

/-- Two URLs are offered. -/
def twoOffers (first second : String) (visitTime : Int32) : World :=
  World.reached (groupsOf 2) .utc [.addUrl first "ie" 5 1, .addUrl second "ie" visitTime 2]

theorem items_resolve_iff_two : ∃ s', (takeUrlGroup 2 (fun _ => 0) 0).run
      (twoOffers "http://a.b/c d" "http://a.b/e" 6).groups = .ok (some 0) s' ∧
    OwnItems 0 s' ∧ TimesSet .utc 0 s' := by
  obtain ⟨s', h⟩ : ∃ s', (takeUrlGroup 2 (fun _ => 0) 0).run (twoOffers "http://a.b/c d" "http://a.b/e" 6).groups =
    .ok (some 0) s' := takeUrlGroup_fresh (by decide +kernel) (by decide +kernel) 0
  exact ⟨s', h, (items_resolve_iff h).2 (by decide +kernel)⟩

/-- **Two items resolve to one URL.** A text is offered with two visit times; both offers are
admitted and end up in one group, and the start of its visit ends in a null pointer. -/
theorem items_collide : (∃ s', (takeUrlGroup 2 (fun _ => 0) 0).run (twoOffers "http://a.b/" "http://a.b/" 6).groups =
      .ok (some 0) s' ∧ ¬ (OwnItems 0 s' ∧ TimesSet .utc 0 s')) ∧
    ∃ w, World.runs (groupsOf 2) .utc (twoOffers "http://a.b/" "http://a.b/" 6)
        [.connect 0, .retrieve 0 (fun _ => 0) true] = some w ∧
      returns ((handleMessage (groupsOf 2) .utc 0
        (visitEvent "start" "seq" "0" "0" (itemsOf ["http://a.b/", "http://a.b/"]))).run w) = false := by
  constructor
  · obtain ⟨s', h⟩ : ∃ s', (takeUrlGroup 2 (fun _ => 0) 0).run (twoOffers "http://a.b/" "http://a.b/" 6).groups =
      .ok (some 0) s' := takeUrlGroup_fresh (by decide +kernel) (by decide +kernel) 0
    refine ⟨s', h, fun ⟨hown, _⟩ => ?_⟩
    obtain ⟨hlist, hsame⟩ := (takeUrlGroup_ok h).urls
    have ha := ownItems_iff.1 hown
    rw [apart_congr hsame, hlist] at ha
    exact absurd ha (by decide +kernel)
  · refine ⟨(World.runs (groupsOf 2) .utc (twoOffers "http://a.b/" "http://a.b/" 6)
      [.connect 0, .retrieve 0 (fun _ => 0) true]).getD {}, ?_, by decide +kernel⟩
    obtain ⟨w, hw⟩ := Option.isSome_iff_exists.1 (show (World.runs (groupsOf 2) .utc
      (twoOffers "http://a.b/" "http://a.b/" 6) [.connect 0, .retrieve 0 (fun _ => 0) true]).isSome = true by
        decide +kernel)
    rw [hw, Option.getD_some]

end CaptureHPC
