import CaptureHPC.Proof.Handlers

/-!
# The finish of a retry

The finish handler drops the error codes "0" and "", so it never resets the code that an
earlier visit left with a URL, and the state VISITED is decided by that code.

* `finish_visited_iff`: a URL whose finish reports no error is VISITED without an error
  code exactly if it had none before.
* `retry_keepsError`: after a lost connection it has one.
-/

namespace CaptureHPC

open Lib Client UrlGroup

variable {cfg : Config} {sdf : SimpleDateFormat} {w w' : World} {c g u : ℕ} {e : Element}

/-- The items of a message that name the URL `u` report no error for it. -/
def ReportsNoError (w : World) (g u : ℕ) (e : Element) : Prop :=
  ∀ item ∈ e.childElements, named g w.groups (item.get "url") = some u →
    item.get "major-error-code" = some "0" ∨ item.get "major-error-code" = some ""

theorem keepsCode_noError {major : String} (h : major = "0" ∨ major = "") : keepsCode true major = false := by
  rcases h with rfl | rfl <;> decide

/-- **The finish of a visit, for a URL it reports no error for**: the URL is VISITED without
an error code if and only if its code was OK when the message came. -/
theorem finish_visited_iff (hname : e.name = "visit-event") (htype : e.get "type" = some "finish")
    (hg : (w.client c).visitingUrlGroup = some g) (hu : u ∈ (w.groups.group g).urlList)
    (hreport : ReportsNoError w g u e) (h : (handleMessage cfg sdf c e).run w = .ok () w') :
    ((w'.groups.urls.url u).urlState = .visited ∧ (w'.groups.urls.url u).majorErrorCode = .ok) ↔
      (w.groups.urls.url u).majorErrorCode = .ok := by
  rw [handleMessage_visit hname htype, if_neg (by decide), if_pos rfl] at h
  obtain ⟨g', s1, s2, s3, s4, map, b, hg', htime, hitems, -, hflush, hend⟩ := parseFinish_ok h
  have hgg : g' = g := by
    have : ((w.told c e).client c).visitingUrlGroup = some g := by
      rw [World.told, World.setClient_self]
      exact hg
    rw [this] at hg'
    cases hg'
    rfl
  subst hgg
  have hframe1 : GroupFrame g' w.groups s1 := (frame_setVisitFinishTime sdf _).of_ok htime
  have hframe2 := hitems.frame
  -- neither the items nor the writing of the changes touch the code of `u`
  have hcode1 : s1.urls = w.groups.urls := ((urls_setVisitFinishTime g' _).of_ok htime).symm
  have hcode2 : (s2.urls.url u).majorErrorCode = (s1.urls.url u).majorErrorCode := by
    refine hitems.code fun item hmem hnames major hmajor => keepsCode_noError ?_
    have hrep := hreport item hmem ((named_congr hframe1 _).symm.trans hnames)
    rw [hmajor, Option.some.injEq, Option.some.injEq] at hrep
    exact hrep
  have hcode3 : (s3.urls.url u).majorErrorCode = (s2.urls.url u).majorErrorCode := by
    rcases hflush with rfl | ⟨-, hwrite⟩
    · rfl
    · exact (same_writeMapToLog map).of_ok hwrite u
  have hframe3 : GroupFrame g' s2 s3 := by
    rcases hflush with rfl | ⟨-, hwrite⟩
    · exact refl s3
    · exact (frame_writeMapToLog sdf map).of_ok hwrite
  have hcode4 : (s4.urls.url u).majorErrorCode = (s3.urls.url u).majorErrorCode :=
    (same_setMalicious (fun _ _ => rfl) _ b _).of_ok hend.verdict u
  have hframe4 : GroupFrame g' s3 s4 := (frame_setMalicious _ b _).of_ok hend.verdict
  have hcode : (s4.urls.url u).majorErrorCode = (w.groups.urls.url u).majorErrorCode := by
    rw [hcode4, hcode3, hcode2, hcode1]
  have hu4 : u ∈ (s4.group g').urlList := by
    rw [hframe4.urlList, hframe3.urlList, hframe2.urlList, hframe1.urlList]
    exact hu
  -- VISITED keeps the code and decides the state by it
  obtain ⟨hstate, -, hsame, -⟩ := visited_ok hend.visited
  rw [hstate u hu4, hsame u, hcode]
  constructor
  · exact fun h => h.2
  · intro hok
    exact ⟨if_pos hok, hok⟩

/-! ## A retry -/

def oneUrl : Config := ⟨1, false, false, 60, 60, 60⟩

/-- A start or a finish without errors for the only URL. -/
def report (type : String) : Element := visitEvent type "seq" "0" "0" [visitItem "http://a.b/" "10" "0"]

theorem report_noError (w : World) (type : String) : ReportsNoError w 0 0 (report type) := by
  intro item hmem _
  obtain rfl := List.mem_singleton.1 hmem
  exact .inl rfl

/-- A client gives its group back before the error code of the lost connection is set. Another client takes the
group. -/
def retakenEarly : List Piece :=
  [.addUrl "http://a.b/" "ie" 5 1, .connect 0, .connect 1, .takeGroup 0 fun _ => 0, .awaitVisiting 0, .setDisconnected 0,
    .disconnectFirst 0, .takeGroup 1 fun _ => 0, .awaitVisiting 1, .message 1 (report "start")]

/-- The finish of this retry: the URL is VISITED. -/
theorem finish_visited_iff_retaken : ∃ w w', w = World.micros oneUrl .utc {} retakenEarly ∧
    .retried 0 ∈ w.groups.history ∧ (handleMessage oneUrl .utc 1 (report "finish")).run w = .ok () w' ∧
    (w'.groups.urls.url 0).urlState = .visited ∧ (w'.groups.urls.url 0).majorErrorCode = .ok := by
  have hrun := run_of_returns (m := handleMessage oneUrl .utc 1 (report "finish"))
    (s := World.micros oneUrl .utc {} retakenEarly) (by decide +kernel)
  exact ⟨_, _, rfl, by decide +kernel, hrun, (finish_visited_iff (g := 0) rfl rfl
    (by decide +kernel) (by decide +kernel) (report_noError _ _) hrun).2 (by decide +kernel)⟩

/-- The first visit of a URL, up to its start. -/
def firstVisit : List Event :=
  [.addUrl "http://a.b/" "ie" 5 1, .connect 0, .connect 1, .retrieve 0 (fun _ => 0) true,
    .message 0 (report "start")]

/-- The client of the first visit is disconnected; another client takes the group again. -/
def retryVisit : List Event :=
  firstVisit ++ [.disconnect 0, .retrieve 1 (fun _ => 0) true, .message 1 (report "start")]

/-- **A successful retry is reported as an error**: its finish reports no error, but the URL
goes to ERROR with the code of the lost connection. -/
theorem retry_keepsError : ∃ w w', World.runs oneUrl .utc {} retryVisit = some w ∧
    .retried 0 ∈ w.groups.history ∧ (w.client 1).visitingUrlGroup = some 0 ∧
    (w.groups.group 0).urlList = [0] ∧ ReportsNoError w 0 0 (report "finish") ∧
    (handleMessage oneUrl .utc 1 (report "finish")).run w = .ok () w' ∧
    (w'.groups.urls.url 0).urlState = .error ∧
    (w'.groups.urls.url 0).majorErrorCode = .captureClientConnectionReset := by
  have hrun := run_of_returns (m := handleMessage oneUrl .utc 1 (report "finish"))
    (s := World.reached oneUrl .utc retryVisit) (by decide +kernel)
  exact ⟨_, _, World.runs_reached (by decide +kernel), by decide +kernel, by decide +kernel,
    by decide +kernel, report_noError _ _, hrun, by decide +kernel, by decide +kernel⟩

end CaptureHPC
