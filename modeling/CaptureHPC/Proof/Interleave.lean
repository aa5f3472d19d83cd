import CaptureHPC.Proof.Events

/-!
# The two threads of a client

The url-retriever sends the visit-event and then sets AWAITING_VISITING; the client's answer
may be read in between. `recorded_iff` says at which positions of this write among the
messages of the visit every system-event is handled in VISITING and a benign finish leaves
the client WAITING.
-/

namespace CaptureHPC

open Lib Client UrlGroup

variable {cfg : Config} {sdf : SimpleDateFormat} {w w' : World} {c g : ℕ} {e start fin : Element}
  {evs : List Element} {algorithm : String}

/-- The messages of a visit. -/
def messages (start : Element) (evs : List Element) (fin : Element) : List Element := start :: (evs ++ [fin])

/-- The retriever writes after the first `k` messages. -/
def writeAfter (k : ℕ) (es : List Element) : List Turn := (es.take k).map .read ++ .write :: (es.drop k).map .read

/-- Every system-event is handled in VISITING, and a benign finish leaves the client WAITING
unless the machine is reverted after each URL. -/
def Recorded (cfg : Config) (sdf : SimpleDateFormat) (c g : ℕ) (w : World) (ts : List Turn) (w' : World) : Prop :=
  (∀ st ∈ w.heardAll cfg sdf c ts, st = some .visiting) ∧
    ((w'.groups.group g).malicious = false → cfg.revertAfterEachUrl = false →
      (w'.client c).clientState = .waiting)

/-- The finish of a visit whose events were all read in VISITING is benign. -/
def Benign (algorithm : String) (g : ℕ) (w : World) (evs : List Element) (fin : Element) : Prop :=
  (w.groups.group g).malicious = false ∧ fin.get "malicious" ≠ some "1" ∧
    (evs = [] ∨ algorithm = "bulk" ∧ 1 < (w.groups.group g).size)

/-- The first of several events ends the visit. -/
def Cut (algorithm : String) (g : ℕ) (w : World) (evs : List Element) : Prop :=
  algorithm = "dac" ∧ 1 < (w.groups.group g).size ∧ 2 ≤ evs.length

/-- The write after `k` messages does no harm: it comes before the start or after the events, which are all read, and
not after a benign finish. -/
def Harmless (cfg : Config) (algorithm : String) (g : ℕ) (w : World) (evs : List Element) (fin : Element) (k : ℕ) :
    Prop :=
  ((k = 0 ∨ evs.length < k) ∧ ¬Cut algorithm g w evs) ∧
    (k ≤ evs.length + 1 ∨ cfg.revertAfterEachUrl = true ∨ ¬ Benign algorithm g w evs fin)

/-! ## The turns of a visit -/

/-- A client with a group, whatever its state. -/
structure Holds (algorithm : String) (c g : ℕ) (w : World) : Prop where
  group : (w.client c).visitingUrlGroup = some g
  algorithm : (w.client c).algorithm = some algorithm
  open_ : (w.client c).socketOpen = true

theorem Visit.holds (h : Visit algorithm c g w) : Holds algorithm c g w := ⟨h.group, h.algorithm, h.open_⟩

/-- The write sets the state and nothing else. -/
theorem turn_write (cfg : Config) (sdf : SimpleDateFormat) (c : ℕ) (w : World) :
    ∃ w', w.turn cfg sdf c .write = some w' ∧ w'.groups = w.groups ∧
      w'.client c = { w.client c with clientState := .awaitingVisiting } :=
  ⟨_, rfl, rfl, World.setClient_self _ _ _⟩

theorem turn_start (hg : (w.client c).visitingUrlGroup = some g) (hopen : (w.client c).socketOpen = true)
    (hname : start.name = "visit-event") (htype : start.get "type" = some "start")
    (halg : start.get "algorithm" = some algorithm) (h : w.turn cfg sdf c (.read start) = some w') :
    Visit algorithm c g w' ∧ w'.groups.size = w.groups.size ∧
      (w'.groups.group g).urlList = (w.groups.group g).urlList ∧
      (w'.groups.group g).malicious = (w.groups.group g).malicious := by
  have hrun := (turn_read hopen).1 h
  rw [handleMessage_visit hname htype, if_pos rfl] at hrun
  obtain ⟨g', hg', hclient, hsize, hsame⟩ := parseStart_ok hrun
  have hself : (w.told c start).client c = { w.client c with algorithm := start.get "algorithm" } :=
    World.setClient_self _ _ _
  rw [hself] at hg' hclient
  have hgg : g' = g := Option.some.inj (hg'.symm.trans hg)
  subst hgg
  exact ⟨⟨by rw [hclient], by rw [hclient]; exact hg, by rw [hclient]; exact halg, by rw [hclient]; exact hopen⟩,
    hsize, congrArg Prod.fst (hsame g'), congrArg Prod.snd (hsame g')⟩

theorem heard_visiting (hv : Visit algorithm c g w) : ∀ st ∈ w.heard c (.read e), st = some .visiting := by
  intro st hst
  unfold World.heard at hst
  dsimp only at hst
  split_ifs at hst with hname hopen
  · rw [List.mem_singleton.1 hst, hv.state]
  · exact absurd hv.open_ hopen
  · cases hst

/-- The events of a visit that they do not end are all read in VISITING. -/
theorem events_live (hd : evs = [] ∨ ¬ (algorithm = "dac" ∧ 1 < (w.groups.group g).size))
    (hv : Visit algorithm c g w)
    (hevs : ∀ e ∈ evs, e.name = "system-event") (h : w.turns cfg sdf c (evs.map .read) = some w') :
    Visit algorithm c g w' ∧ w'.groups.size = w.groups.size ∧
      (w'.groups.group g).size = (w.groups.group g).size ∧
      ((w'.groups.group g).malicious = true ↔ (w.groups.group g).malicious = true ∨
        evs ≠ [] ∧ ¬ (algorithm = "bulk" ∧ 1 < (w.groups.group g).size)) ∧
      ∀ st ∈ w.heardAll cfg sdf c (evs.map .read), st = some .visiting := by
  induction evs generalizing w with
  | nil =>
    cases h
    exact ⟨hv, rfl, rfl, by simp, by simp [World.heardAll]⟩
  | cons e es ih =>
    obtain ⟨w1, h1, hrest⟩ := Option.bind_eq_some_iff.1 h
    have hrun := (turn_read hv.open_).1 h1
    have hname := hevs e List.mem_cons_self
    replace hd := hd.resolve_left (by simp)
    have hone : Visit algorithm c g w1 ∧ w1.groups.size = w.groups.size ∧
        (w1.groups.group g).size = (w.groups.group g).size ∧
        ((w1.groups.group g).malicious = true ↔ (w.groups.group g).malicious = true ∨
          ¬ (algorithm = "bulk" ∧ 1 < (w.groups.group g).size)) := by
      by_cases hb : algorithm = "bulk" ∧ 1 < (w.groups.group g).size
      · obtain ⟨rfl, hsize⟩ := hb
        obtain ⟨hv1, hg1, -⟩ := event_bulk hv hname hsize hrun
        rw [hg1]
        exact ⟨hv1, rfl, rfl, by simp [hsize]⟩
      · obtain ⟨hc1, hmal⟩ := event_blames hv hname hb hd hrun
        obtain ⟨hf, hm, -, -, -⟩ := setMaliciousOnEvent_ok hmal
        refine ⟨⟨by rw [hc1]; exact hv.state, by rw [hc1]; exact hv.group, by rw [hc1]; exact hv.algorithm,
          by rw [hc1]; exact hv.open_⟩, hf.size, congrArg List.length hf.urlList, ?_⟩
        exact iff_of_true hm (.inr hb)
    obtain ⟨hv1, hs1, hn1, hm1⟩ := hone
    obtain ⟨hv', hs', hn', hm', hheard⟩ := ih (.inr (by rw [hn1]; exact hd)) hv1
      (fun e he => hevs e (List.mem_cons_of_mem _ he)) hrest
    refine ⟨hv', hs'.trans hs1, hn'.trans hn1, ?_, ?_⟩
    · rw [hm', hm1, hn1]
      constructor
      · rintro ((h | h) | ⟨-, h⟩)
        · exact .inl h
        · exact .inr ⟨by simp, h⟩
        · exact .inr ⟨by simp, h⟩
      · rintro (h | ⟨-, h⟩)
        · exact .inl (.inl h)
        · exact .inl (.inr h)
    · intro st hst
      rw [List.map_cons, World.heardAll, h1] at hst
      rcases List.mem_append.1 hst with hst | hst
      · exact heard_visiting hv st hst
      · exact hheard st hst

/-- On a closed connection the threads do not change the groups. -/
theorem turns_of_closed {ts : List Turn} (hclosed : (w.client c).socketOpen = false)
    (h : w.turns cfg sdf c ts = some w') : w'.groups = w.groups ∧ (w'.client c).socketOpen = false := by
  induction ts generalizing w with
  | nil =>
    cases h
    exact ⟨rfl, hclosed⟩
  | cons t ts ih =>
    obtain ⟨w1, h1, hrest⟩ := Option.bind_eq_some_iff.1 h
    have hone : w1.groups = w.groups ∧ (w1.client c).socketOpen = false := by
      cases t with
      | write =>
        obtain ⟨w2, h2, hg2, hc2⟩ := turn_write cfg sdf c w
        obtain rfl : w2 = w1 := Option.some.inj (h2.symm.trans h1)
        exact ⟨hg2, by rw [hc2]; exact hclosed⟩
      | read e =>
        have hsame : w.turns cfg sdf c ([e].map .read) = some w := turns_closed hclosed [e]
        obtain ⟨w2, h2, hnil⟩ := Option.bind_eq_some_iff.1 hsame
        cases hnil
        obtain rfl : w = w1 := Option.some.inj (h2.symm.trans h1)
        exact ⟨rfl, hclosed⟩
    obtain ⟨hg, hstill⟩ := ih hone.2 hrest
    exact ⟨hg.trans hone.1, hstill⟩

/-- An event that comes then is not handled. -/
theorem none_heard (ts : List Turn) {us : List Turn} (hclosed : (w.client c).socketOpen = false) (hname : e.name = "system-event")
    (h : w.turns cfg sdf c (ts ++ .read e :: us) = some w') :
    none ∈ w.heardAll cfg sdf c (ts ++ .read e :: us) := by
  rw [turns_append] at h
  obtain ⟨w1, h1, -⟩ := Option.bind_eq_some_iff.1 h
  obtain ⟨-, hstill⟩ := turns_of_closed hclosed h1
  rw [heardAll_append, h1, Option.elim_some, World.heardAll]
  refine List.mem_append_right _ (List.mem_append_left _ ?_)
  unfold World.heard
  dsimp only
  rw [if_pos hname, hstill]
  exact List.mem_singleton_self _

/-- The first event ends the visit of a larger group under `dac`. -/
theorem turn_dac (hv : Visit "dac" c g w) (hlt : g < w.groups.size) (hsize : 1 < (w.groups.group g).size)
    (hname : e.name = "system-event") (h : w.turn cfg sdf c (.read e) = some w') :
    (w'.client c).socketOpen = false ∧ (w'.groups.group g).malicious = true := by
  obtain ⟨s1, s4, hmal, hframe4, hsame, hvis, -, hclosed⟩ := event_dac hv hname hsize ((turn_read hv.open_).1 h)
  refine ⟨hclosed, ?_⟩
  have hgroup : s1.group g = { w.groups.group g with malicious := true } := by
    have := setMalicious_group (g := g) (some "dac") true none w.groups
    rw [hmal] at this
    rw [show s1.group = _ from this, Function.update_self]
  have hframe : GroupFrame g w.groups s4 := ((frame_setMalicious _ true _).of_ok hmal).trans hframe4
  have hm : (s4.group g).malicious = true := by
    rw [show (s4.group g).malicious = (s1.group g).malicious from congrArg Prod.fst (hsame g), hgroup]
  rw [visited_malicious (by rw [hframe.size]; exact hlt) hvis, hm]

/-- A finish, read in any state of the client. -/
theorem turn_finish (hh : Holds algorithm c g w) (hlt : g < w.groups.size) (hname : fin.name = "visit-event")
    (htype : fin.get "type" = some "finish") (halg : fin.get "algorithm" = some algorithm)
    (h : w.turn cfg sdf c (.read fin) = some w') :
    ((w'.groups.group g).malicious = false → cfg.revertAfterEachUrl = false →
      (w'.client c).clientState = .waiting) ∧
    ((w'.groups.group g).malicious = true ↔
      (w.groups.group g).malicious = true ∨ fin.get "malicious" = some "1") := by
  obtain ⟨s1, s2, s3, s4, map, b, hrun⟩ := finish_ok hh.group hname htype halg ((turn_read hh.open_).1 h)
  have hf4 : GroupFrame g s3 s4 := (frame_setMalicious _ b _).of_ok hrun.verdict
  have hgroup4 : s4.group g = { s3.group g with malicious := b } := by
    have := setMalicious_group (g := g) (some algorithm) b (some map) s3
    rw [hrun.verdict] at this
    rw [show s4.group = _ from this, Function.update_self]
  have hmal : (w'.groups.group g).malicious = b := by
    rw [visited_malicious (by rw [(hrun.frame.trans hf4).size]; exact hlt) hrun.visited, hgroup4]
  rw [hmal]
  refine ⟨fun hb hrevert => ?_, hrun.seen⟩
  rw [hrun.state, hb, afterBenign, hrevert]
  rfl

theorem heard_visit_event (hname : e.name = "visit-event") (w : World) : w.heard c (.read e) = [] := by
  unfold World.heard
  dsimp only
  rw [if_neg]
  rw [hname]
  decide

/-- What is read between the start and the end of a visit, when the retriever writes before
the start or between the events and the finish. -/
theorem visit_rest {mid : List Turn} (hmid : mid = [] ∨ mid = [.write]) (hv : Visit algorithm c g w)
    (hlt : g < w.groups.size) (hevs : ∀ e ∈ evs, e.name = "system-event") (hname : fin.name = "visit-event")
    (htype : fin.get "type" = some "finish") (halg : fin.get "algorithm" = some algorithm)
    (h : w.turns cfg sdf c (evs.map .read ++ (mid ++ [.read fin])) = some w') :
    ((∀ st ∈ w.heardAll cfg sdf c (evs.map .read ++ (mid ++ [.read fin])), st = some .visiting) ↔
      ¬Cut algorithm g w evs) ∧
      ((w'.groups.group g).malicious = false → cfg.revertAfterEachUrl = false →
        (w'.client c).clientState = .waiting) ∧
      ((w'.groups.group g).malicious = false ↔ Benign algorithm g w evs fin) := by
  rw [turns_append] at h
  obtain ⟨w1, h1, hend⟩ := Option.bind_eq_some_iff.1 h
  -- the write and the finish are no events
  have hlast : ∀ {w1 : World}, w1.heardAll cfg sdf c (mid ++ [.read fin]) = [] := by
    intro w1
    have hfin : ∀ w2 : World, w2.heardAll cfg sdf c [.read fin] = [] := by
      intro w2
      rw [World.heardAll, heard_visit_event hname]
      cases w2.turn cfg sdf c (.read fin) <;> rfl
    rcases hmid with rfl | rfl
    · exact hfin w1
    · obtain ⟨w2, h2, -⟩ := turn_write cfg sdf c w1
      rw [List.singleton_append, World.heardAll, h2, Option.elim_some, hfin]
      rfl
  by_cases hd : evs = [] ∨ ¬ (algorithm = "dac" ∧ 1 < (w.groups.group g).size)
  · obtain ⟨hv1, hs1, -, hm1, hheard⟩ := events_live hd hv hevs h1
    -- the write changes nothing that the finish reads
    have hmidrun : ∃ w2, w1.turns cfg sdf c mid = some w2 ∧ Holds algorithm c g w2 ∧ w2.groups = w1.groups := by
      rcases hmid with rfl | rfl
      · exact ⟨w1, rfl, hv1.holds, rfl⟩
      · obtain ⟨w2, h2, hg2, hc2⟩ := turn_write cfg sdf c w1
        refine ⟨w2, by rw [World.turns, h2]; rfl, ?_, hg2⟩
        exact ⟨by rw [hc2]; exact hv1.group, by rw [hc2]; exact hv1.algorithm, by rw [hc2]; exact hv1.open_⟩
    obtain ⟨w2, h2, hh2, hg2⟩ := hmidrun
    rw [turns_append, h2, Option.bind_some] at hend
    obtain ⟨w3, h3, hnil⟩ := Option.bind_eq_some_iff.1 hend
    cases hnil
    obtain ⟨hwait, hmal⟩ := turn_finish hh2 (by rw [hg2, hs1]; exact hlt) hname htype halg h3
    refine ⟨?_, hwait, ?_⟩
    · rw [heardAll_append, h1, Option.elim_some, hlast, List.append_nil]
      refine iff_of_true hheard ?_
      rintro ⟨hdac, hsize, hlen⟩
      rcases hd with rfl | hd
      · exact absurd hlen (by decide)
      · exact hd ⟨hdac, hsize⟩
    · rw [← Bool.not_eq_true, hmal, hg2, hm1, Benign, ← Bool.not_eq_true, not_or, not_or, not_and_or, not_not,
        not_not, and_assoc]
      exact and_congr_right fun _ => and_comm
  · -- the first event has ended the visit
    push Not at hd
    obtain ⟨hne, rfl, hsize⟩ := hd
    cases evs with
    | nil => exact absurd rfl hne
    | cons e es =>
      obtain ⟨w2, h2, hes⟩ := Option.bind_eq_some_iff.1 h1
      obtain ⟨hclosed, hmal⟩ := turn_dac hv hlt hsize (hevs e List.mem_cons_self) h2
      have hrest : w2.turns cfg sdf c (es.map .read ++ (mid ++ [.read fin])) = some w' := by
        rw [turns_append, hes]
        exact hend
      have hm : (w'.groups.group g).malicious = true := by rw [(turns_of_closed hclosed hrest).1, hmal]
      refine ⟨?_, fun hfalse => ?_, ?_⟩
      · rw [List.map_cons, List.cons_append, World.heardAll, h2, Option.elim_some]
        cases es with
        | nil =>
          refine iff_of_true (fun st hst => ?_) fun hcut => absurd hcut.2.2 (Nat.not_succ_le_self 1)
          rw [List.map_nil, List.nil_append, hlast, List.append_nil] at hst
          exact heard_visiting hv st hst
        | cons e2 es =>
          refine iff_of_false (fun hall => ?_) fun hnot => hnot ⟨rfl, hsize, Nat.le_add_left 2 es.length⟩
          have hnone := none_heard [] hclosed (hevs e2 (by simp)) hrest
          cases hall none (List.mem_append_right _ hnone)
      · rw [hm] at hfalse
        cases hfalse
      · rw [hm]
        refine iff_of_false (by decide) ?_
        rintro ⟨-, -, h | h⟩
        · exact hne h
        · exact absurd h.1 (by decide)

/-- An event after the write is read in AWAITING_VISITING. -/
theorem heard_after_write (hopen : (w.client c).socketOpen = true) (hname : e.name = "system-event")
    (ts : List Turn) : some .awaitingVisiting ∈ w.heardAll cfg sdf c (.write :: .read e :: ts) := by
  obtain ⟨w1, h1, -, hc1⟩ := turn_write cfg sdf c w
  rw [World.heardAll, h1, Option.elim_some, World.heardAll]
  refine List.mem_append_right _ (List.mem_append_left _ ?_)
  unfold World.heard
  dsimp only
  rw [if_pos hname, hc1, if_pos hopen]
  exact List.mem_singleton_self _

theorem writeAfter_append (pre post : List Element) :
    writeAfter pre.length (pre ++ post) = pre.map .read ++ .write :: post.map .read := by
  rw [writeAfter, List.take_left, List.drop_left]

/-- A first turn that reads no system-event. -/
theorem recorded_cons {t : Turn} {ts : List Turn} {w1 : World} (h1 : w.turn cfg sdf c t = some w1)
    (hheard : w.heard c t = []) : Recorded cfg sdf c g w (t :: ts) w' ↔ Recorded cfg sdf c g w1 ts w' := by
  unfold Recorded
  rw [World.heardAll, hheard, h1]
  rfl

/-- A write after the start and before an event: the event is missed, even if an earlier one has ended the visit. -/
theorem missed_before_event {pre post : List Element} (hv : Visit algorithm c g w) (hlt : g < w.groups.size)
    (hpre : ∀ e ∈ pre, e.name = "system-event") (hname : e.name = "system-event")
    (h : w.turns cfg sdf c (pre.map .read ++ .write :: .read e :: post.map .read) = some w') :
    ¬Recorded cfg sdf c g w (pre.map .read ++ .write :: .read e :: post.map .read) w' := by
  rintro ⟨hall, -⟩
  by_cases hd : pre = [] ∨ ¬ (algorithm = "dac" ∧ 1 < (w.groups.group g).size)
  · rw [turns_append] at h
    obtain ⟨w1, h1, hrest⟩ := Option.bind_eq_some_iff.1 h
    obtain ⟨hv1, -⟩ := events_live hd hv hpre h1
    have hbad := hall (some .awaitingVisiting) (by
      rw [heardAll_append, h1]
      exact List.mem_append_right _ (heard_after_write hv1.open_ hname _))
    cases hbad
  · push Not at hd
    obtain ⟨hne, rfl, hsize⟩ := hd
    cases pre with
    | nil => exact absurd rfl hne
    | cons e1 es =>
      -- the first event has closed the connection
      obtain ⟨w2, h2, hrest⟩ := Option.bind_eq_some_iff.1 h
      obtain ⟨hclosed, -⟩ := turn_dac hv hlt hsize (hpre e1 List.mem_cons_self) h2
      have hshape : es.map Turn.read ++ .write :: .read e :: post.map .read =
          (es.map .read ++ [.write]) ++ .read e :: post.map .read := by rw [List.append_assoc]; rfl
      have hnone : none ∈ w2.heardAll cfg sdf c (es.map .read ++ .write :: .read e :: post.map .read) := by
        have hturns : w2.turns cfg sdf c ((es.map .read ++ [.write]) ++ .read e :: post.map .read) = some w' := by
          rw [← hshape]
          exact hrest
        rw [hshape]
        exact none_heard _ hclosed hname hturns
      have hbad := hall none (by
        rw [List.map_cons, List.cons_append, World.heardAll, h2]
        exact List.mem_append_right _ hnone)
      cases hbad

/-- A client has taken the group of one URL and has not yet set AWAITING_VISITING. -/
def taken : World :=
  (World.reached (groupsOf 1) .utc [.addUrl "http://a.b/" "ie" 5 1, .connect 0]).micro (groupsOf 1) .utc
    (.takeGroup 0 fun _ => 0)

def startOf (algorithm : String) : Element := visitEvent "start" algorithm "0" "0" (itemsOf ["http://a.b/"])

def finishOf (algorithm : String) : Element := visitEvent "finish" algorithm "0" "0" (itemsOf ["http://a.b/"])

end CaptureHPC
