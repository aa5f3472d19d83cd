import CaptureHPC.Spec.Download

/-!
# Which archive a disconnection repairs

`disconnect` sets `downloading` to false before it tests it, so it repairs an archive only if an event
thread handles a message about a file in between.

* `repaired_count`: in every run, an archive is repaired once for every pass of the last lines of `disconnect` whose
  test comes behind such a message, if its name is the last announced there (`repairs`).
* `disconnect_repairs`: so dropped downloads and no others are repaired if and only if these passes
  are as many as they should be.
* `repaired_alone`: without such a message nothing is repaired.
-/

namespace CaptureHPC

open Lib

namespace Entry

/-- What the writes make of the flag, and what the last test found. Behind a test that found it, `disconnect` writes
false once more. -/
def flags : List Entry → Bool × Bool
  | [] => (false, false)
  | .wrote (.file _) :: h | .wrote (.part _) :: h => (true, (flags h).2)
  | .wrote (.fileFinished _) :: h | .cleared :: h => (false, (flags h).2)
  | .tested :: h => ((flags h).1, (flags h).1)
  | .resetPassed :: h => (!(flags h).2 && (flags h).1, (flags h).2)
  | .wrote (.zip _ _) :: h | .lost :: h | .reentered :: h | .repairPassed :: h => flags h

/-- The archive that was announced last. -/
def announced : List Entry → Option String
  | [] => none
  | .wrote (.zip _ z) :: _ => some z
  | .wrote (.file _) :: h | .wrote (.part _) :: h | .wrote (.fileFinished _) :: h | .lost :: h
  | .reentered :: h | .cleared :: h | .tested :: h | .resetPassed :: h | .repairPassed :: h => announced h

/-- How often `z` should be repaired, by the order of the messages and the lines of `disconnect`: at every pass whose
test came behind a message that raised the flag, when `z` is the last announced. -/
def repairs (z : String) : List Entry → ℕ
  | [] => 0
  | .repairPassed :: h => (if (flags h).2 = true ∧ announced h = some z then 1 else 0) + repairs z h
  | .wrote _ :: h | .lost :: h | .reentered :: h | .cleared :: h | .tested :: h | .resetPassed :: h => repairs z h

/-- The connection was lost behind the announcement of `z`. -/
def Announced (h : List Entry) (z : String) : Prop :=
  ∃ after before n, h = after ++ .lost :: before ∧ .wrote (.zip n z) ∈ before

/-- It was lost before the `file-finished` of that name, too. -/
def Dropped (h : List Entry) (z : String) : Prop :=
  ∃ after between n before, h = after ++ .lost :: (between ++ .wrote (.zip n z) :: before) ∧
    .wrote (.fileFinished n) ∉ between

end Entry

namespace Download

open Entry

variable {decodeBuffer : String → Option (List UInt8)} {s s' : Download} {a : DownloadStep}

/-- An operation behind the test. -/
def behindTest : DisconnectOp → Bool
  | .reset _ | .repair _ => true
  | .clear | .recheck | .test => false

theorem behindTest_body : ∀ op ∈ disconnectBody, behindTest op = false := by decide

/-- Where `disconnect` is. Behind its test it knows what the test found. -/
def Stage (ops : List DisconnectOp) (h : List Entry) : Prop :=
  ∃ rest, (∀ op ∈ rest, behindTest op = false) ∧
    (ops = rest ∨ ops = .repair (flags h).2 :: rest ∨ ops = .reset (flags h).2 :: .repair (flags h).2 :: rest)

/-- **The client's fields are what was written last, and what was repaired is what the tests say.** -/
structure Ok (s : Download) : Prop where
  downloading : s.downloading = (flags s.history).1
  zipName : s.zipName = announced s.history
  stage : Stage s.disconnecting s.history
  repaired : ∀ z, s.repaired.count (some z) = repairs z s.history

theorem ok_initial : Ok {} := ⟨rfl, rfl, ⟨[], by simp, .inl rfl⟩, fun _ => rfl⟩

/-- A change that the client's fields and the disconnection do not see. -/
theorem Ok.of_eq (h : Ok s) (hdownloading : s'.downloading = s.downloading) (hzip : s'.zipName = s.zipName)
    (hops : s'.disconnecting = s.disconnecting) (hrepaired : s'.repaired = s.repaired)
    (hhistory : s'.history = s.history) : Ok s' := by
  constructor
  · rw [hdownloading, hhistory]
    exact h.downloading
  · rw [hzip, hhistory]
    exact h.zipName
  · rw [hops, hhistory]
    exact h.stage
  · rw [hrepaired, hhistory]
    exact h.repaired

theorem ok_wrote (h : Ok s) (a : Access) : Ok (s.wrote a) := by
  cases a with
  | file n => exact ⟨rfl, h.zipName, h.stage, h.repaired⟩
  | zip n z => exact ⟨h.downloading, rfl, h.stage, h.repaired⟩
  | part n => exact ⟨rfl, h.zipName, h.stage, h.repaired⟩
  | fileFinished n => exact ⟨rfl, h.zipName, h.stage, h.repaired⟩

/-- The operations of `disconnect` that are still to come before a test. -/
theorem stage_rest {ops : List DisconnectOp} {h : List Entry} (hops : ∀ op ∈ ops, behindTest op = false) :
    Stage ops h := ⟨ops, hops, .inl rfl⟩

/-- An operation before the test has no others before it. -/
theorem Stage.rest {op : DisconnectOp} {ops : List DisconnectOp} {h : List Entry} (hs : Stage (op :: ops) h)
    (hop : behindTest op = false) : ∀ op ∈ ops, behindTest op = false := by
  obtain ⟨rest, hrest, rfl | hops | hops⟩ := hs
  · exact fun op hmem => hrest op (List.mem_cons_of_mem _ hmem)
  · rw [(List.cons.inj hops).1] at hop
    cases hop
  · rw [(List.cons.inj hops).1] at hop
    cases hop

theorem Stage.reset {ops : List DisconnectOp} {h : List Entry} {found : Bool} (hs : Stage (.reset found :: ops) h) :
    found = (flags h).2 ∧ Stage ops (.resetPassed :: h) := by
  obtain ⟨rest, hrest, rfl | hops | hops⟩ := hs
  · cases hrest (.reset found) List.mem_cons_self
  · cases hops
  · obtain ⟨hfound, rfl⟩ := List.cons.inj hops
    exact ⟨DisconnectOp.reset.inj hfound, rest, hrest, .inr (.inl rfl)⟩

theorem Stage.repair {ops : List DisconnectOp} {h : List Entry} {found : Bool} (hs : Stage (.repair found :: ops) h) :
    found = (flags h).2 ∧ ∀ op ∈ ops, behindTest op = false := by
  obtain ⟨rest, hrest, rfl | hops | hops⟩ := hs
  · cases hrest (.repair found) List.mem_cons_self
  · obtain ⟨hfound, rfl⟩ := List.cons.inj hops
    exact ⟨DisconnectOp.repair.inj hfound, hrest⟩
  · cases hops

/-- What `disconnect` does next. -/
theorem ok_disconnect {changed : Bool} (h : Ok s) (hs : s.disconnect changed = some s') : Ok s' := by
  unfold disconnect at hs
  split at hs
  · cases hs
  · rename_i rest hops
    cases hs
    exact ⟨rfl, h.zipName, stage_rest ((hops ▸ h.stage).rest rfl), h.repaired⟩
  · rename_i rest hops
    have hrest := (hops ▸ h.stage).rest rfl
    cases changed with
    | true =>
      cases hs
      -- `disconnect` enters itself again
      refine ⟨h.downloading, h.zipName, stage_rest fun op hop => ?_, h.repaired⟩
      rcases List.mem_append.1 hop with hop | hop
      · exact behindTest_body op hop
      · exact hrest op hop
    | false =>
      cases hs
      exact ⟨h.downloading, h.zipName, stage_rest hrest, h.repaired⟩
  · rename_i rest hops
    cases hs
    refine ⟨h.downloading, h.zipName, ⟨rest, (hops ▸ h.stage).rest rfl, .inr (.inr ?_)⟩, h.repaired⟩
    rw [h.downloading]
    rfl
  · rename_i found rest hops
    cases hs
    obtain ⟨hfound, hstage⟩ := (hops ▸ h.stage).reset
    refine ⟨?_, h.zipName, hstage, h.repaired⟩
    -- false is written only where the test found the flag set
    rw [hfound, h.downloading]
    show (if (flags s.history).2 = true then false else (flags s.history).1) =
      (!(flags s.history).2 && (flags s.history).1)
    cases (flags s.history).2 <;> rfl
  · rename_i found rest hops
    cases hs
    obtain ⟨hfound, hrest⟩ := (hops ▸ h.stage).repair
    refine ⟨h.downloading, h.zipName, stage_rest hrest, fun z => ?_⟩
    show (if found = true then s.repaired ++ [s.zipName] else s.repaired).count (some z) = _
    rw [repairs, ← hfound, ← h.zipName]
    -- only a test that found the flag set repairs
    cases found with
    | true =>
      simp only [if_true, true_and]
      rw [List.count_append, h.repaired z, List.count_singleton, Nat.add_comm]
      simp only [beq_iff_eq]
    | false =>
      simp only [Bool.false_eq_true, if_false, false_and, Nat.zero_add]
      exact h.repaired z

theorem ok_step (h : Ok s) (hs : step decodeBuffer s a = some s') : Ok s' := by
  cases a with
  | connect =>
    cases hs
    exact h.of_eq rfl rfl rfl rfl rfl
  | receive i m =>
    simp only [step] at hs
    split at hs
    · split at hs
      · cases hs
        exact h.of_eq rfl rfl rfl rfl rfl
      · cases hs
    · cases hs
  | write i =>
    simp only [step] at hs
    split at hs
    · split at hs
      · rename_i t _ b rest _
        cases hs
        refine ok_wrote ?_ b
        exact h.of_eq rfl rfl rfl rfl rfl
      · cases hs
    · cases hs
  | lose =>
    simp only [step] at hs
    split at hs
    · cases hs
    · cases hs
      exact ⟨h.downloading, h.zipName, stage_rest behindTest_body, h.repaired⟩
  | socketFails =>
    simp only [step] at hs
    split at hs
    · cases hs
    · cases hs
      exact ⟨h.downloading, h.zipName, h.stage, h.repaired⟩
  | disconnect changed => exact ok_disconnect h hs
  | throws =>
    simp only [step] at hs
    split at hs
    · cases hs
      exact ⟨h.downloading, h.zipName, stage_rest (by simp), h.repaired⟩
    · cases hs
      exact ⟨h.downloading, h.zipName, stage_rest (by simp), h.repaired⟩
    · cases hs

variable {ok : Download → DownloadStep → Prop}

theorem ok_of_reaches (h : Reaches (step decodeBuffer) ok {} s) : Ok s :=
  h.invariant ok_initial fun _ _ _ hs _ hstep => ok_step hs hstep

/-- **In every run an archive is repaired as often as the order of the messages and of the lines that are passed
says.** -/
theorem repaired_count (h : Reaches (step decodeBuffer) ok {} s) (z : String) :
    s.repaired.count (some z) = repairs z s.history :=
  (ok_of_reaches h).repaired z

/-! ## Dropped downloads -/

/-- When the client is disconnected, every dropped download has been repaired once, and no other. -/
def RepairsDropped (s : Download) : Prop :=
  s.Over → ∀ z, Announced s.history z →
    (Dropped s.history z → s.repaired.count (some z) = 1) ∧
      (¬Dropped s.history z → s.repaired.count (some z) = 0)

/-- **A disconnection repairs the dropped downloads and no others if and only if one pass of its last lines, for each
dropped download, and none for the others, has its test behind a message about a file that no write of false
follows, and finds this archive announced last.** -/
theorem disconnect_repairs (h : Reaches (step decodeBuffer) anyStep {} s) (hover : s.Over) :
    RepairsDropped s ↔
      ∀ z, Announced s.history z →
        (Dropped s.history z → repairs z s.history = 1) ∧
          (¬Dropped s.history z → repairs z s.history = 0) := by
  unfold RepairsDropped
  simp only [repaired_count h, hover, true_implies]

/-- An archive is announced. -/
def announcement : FileMessage := .file (some "a") (some "1") (some "zip") (some "7") true

/-- A part of it. -/
def piece : FileMessage := .part (some "a") (some "0") (some "0") (some "base64") ""

/-- The thread handles a part between the write of false and the test. -/
def overtaken : List DownloadStep :=
  [.connect, .receive 0 announcement, .write 0, .write 0, .lose, .disconnect false, .receive 0 piece, .write 0,
    .disconnect false, .disconnect false, .disconnect false, .disconnect false]

theorem overtaken_repairs : ∃ s, Reaches (step fun _ => some []) anyStep {} s ∧ s.Over ∧ RepairsDropped s := by
  have hrun : (run (step fun _ => some []) {} overtaken).map (fun s => (s.history, s.disconnecting)) =
      some ([.repairPassed, .resetPassed, .tested, .wrote (.part (some "a")), .cleared, .lost,
        .wrote (.zip (some "a") "log/changes/7.zip"), .wrote (.file (some "a"))], []) := by decide
  obtain ⟨s, hs, hfields⟩ := Option.map_eq_some_iff.1 hrun
  obtain ⟨hhistory, hops⟩ := Prod.mk.inj hfields
  have hreach : Reaches (step fun _ => some []) anyStep {} s := .of_run (fun _ _ _ => trivial) hs
  have hover : s.Over := ⟨by simp [hhistory], hops⟩
  refine ⟨s, hreach, hover, (disconnect_repairs hreach hover).2 fun z hz => ?_⟩
  rw [hhistory] at hz ⊢
  obtain ⟨after, before, n, hsplit, hmem⟩ := hz
  have hin := List.mem_append_right after (List.mem_cons_of_mem .lost hmem)
  rw [← hsplit] at hin
  obtain ⟨rfl, rfl⟩ : n = some "a" ∧ z = "log/changes/7.zip" := by simpa using hin
  refine ⟨fun _ => by decide, fun hnot => (hnot ?_).elim⟩
  exact ⟨[.repairPassed, .resetPassed, .tested, .wrote (.part (some "a")), .cleared], [], some "a",
    [.wrote (.file (some "a"))], rfl, by simp⟩

/-- The connection is lost behind the announcement. -/
def lostBehind : List DownloadStep :=
  [.connect, .receive 0 announcement, .write 0, .write 0, .lose, .disconnect false, .disconnect false,
    .disconnect false, .disconnect false, .disconnect false]

theorem lostBehind_stays_broken :
    ∃ s, Reaches (step fun _ => some []) anyStep {} s ∧ s.Over ∧ ¬RepairsDropped s := by
  have hrun : (run (step fun _ => some []) {} lostBehind).map
      (fun s => (s.history, s.disconnecting, s.repaired)) =
      some ([.repairPassed, .resetPassed, .tested, .cleared, .lost, .wrote (.zip (some "a") "log/changes/7.zip"),
        .wrote (.file (some "a"))], [], []) := by decide
  obtain ⟨s, hs, hfields⟩ := Option.map_eq_some_iff.1 hrun
  simp only [Prod.mk.injEq] at hfields
  obtain ⟨hhistory, hops, hrepaired⟩ := hfields
  have hover : s.Over := ⟨by simp [hhistory], hops⟩
  refine ⟨s, .of_run (fun _ _ _ => trivial) hs, hover, fun hall => ?_⟩
  have hannounced : Announced s.history "log/changes/7.zip" := by
    rw [hhistory]
    exact ⟨[.repairPassed, .resetPassed, .tested, .cleared],
      [.wrote (.zip (some "a") "log/changes/7.zip"), .wrote (.file (some "a"))], some "a", rfl, by simp⟩
  have hdropped : Dropped s.history "log/changes/7.zip" := by
    rw [hhistory]
    exact ⟨[.repairPassed, .resetPassed, .tested, .cleared], [], some "a", [.wrote (.file (some "a"))], rfl, by simp⟩
  have hcount := (hall hover _ hannounced).1 hdropped
  rw [hrepaired] at hcount
  cases hcount

/-! ## Nobody writes in between -/

/-- No event thread writes once the connection is lost. -/
def Alone (s : Download) : DownloadStep → Prop
  | .write _ => .lost ∉ s.history
  | _ => True

/-- Nothing was repaired, and nothing will be. -/
structure Quiet (s : Download) : Prop where
  repaired : s.repaired = []
  connected : .lost ∉ s.history → s.disconnecting = []
  lost : .lost ∈ s.history → s.disconnecting = [] ∨ s.disconnecting.head? = some .clear ∨ s.downloading = false
  repair : .repair true ∉ s.disconnecting

theorem quiet_disconnect {changed : Bool} (h : Quiet s) (hs : s.disconnect changed = some s') : Quiet s' := by
  have hlost : .lost ∈ s.history := by
    by_contra hnot
    rw [disconnect, h.connected hnot] at hs
    cases hs
  unfold disconnect at hs
  split at hs
  · cases hs
  · rename_i rest hops
    cases hs
    have hrepair := hops ▸ h.repair
    exact ⟨h.repaired, by simp [hlost], fun _ => .inr (.inr rfl), by simp_all⟩
  · rename_i rest hops
    have hrepair := hops ▸ h.repair
    cases changed with
    | true =>
      cases hs
      exact ⟨h.repaired, by simp [hlost], fun _ => .inr (.inl rfl), by simp_all [disconnectBody]⟩
    | false =>
      cases hs
      have hflag : s.downloading = false := by simpa [hops] using h.lost hlost
      exact ⟨h.repaired, by simp [hlost], fun _ => .inr (.inr hflag), by simp_all⟩
  · rename_i rest hops
    cases hs
    have hrepair := hops ▸ h.repair
    -- the flag has been false since `clear`
    have hflag : s.downloading = false := by simpa [hops] using h.lost hlost
    exact ⟨h.repaired, by simp [hlost], fun _ => .inr (.inr hflag), by simp_all⟩
  · rename_i found rest hops
    cases hs
    have hrepair := hops ▸ h.repair
    have hflag : s.downloading = false := by simpa [hops] using h.lost hlost
    exact ⟨h.repaired, by simp [hlost], fun _ => .inr (.inr (by simp [hflag])), by simp_all⟩
  · rename_i found rest hops
    have hrepair := hops ▸ h.repair
    cases found with
    | true => exact (hrepair List.mem_cons_self).elim
    | false =>
      cases hs
      have hflag : s.downloading = false := by simpa [hops] using h.lost hlost
      exact ⟨h.repaired, by simp [hlost], fun _ => .inr (.inr hflag), by simp_all⟩

theorem quiet_step (h : Quiet s) (hok : Alone s a) (hs : step decodeBuffer s a = some s') : Quiet s' := by
  cases a with
  | connect =>
    cases hs
    exact ⟨h.repaired, h.connected, h.lost, h.repair⟩
  | receive i m =>
    simp only [step] at hs
    split at hs
    · split at hs
      · cases hs
        exact ⟨h.repaired, h.connected, h.lost, h.repair⟩
      · cases hs
    · cases hs
  | write i =>
    have hnot : .lost ∉ s.history := hok
    have hops := h.connected hnot
    simp only [step] at hs
    split at hs
    · split at hs
      · rename_i t _ b rest _
        cases hs
        cases b <;> exact ⟨h.repaired, fun _ => hops, fun _ => .inl hops, h.repair⟩
      · cases hs
    · cases hs
  | lose =>
    simp only [step] at hs
    split at hs
    · cases hs
    · cases hs
      exact ⟨h.repaired, by simp, fun _ => .inr (.inl rfl), by simp [disconnectBody]⟩
  | socketFails =>
    simp only [step] at hs
    split at hs
    · cases hs
    · rename_i hnot
      cases hs
      exact ⟨h.repaired, by simp, fun _ => .inl (h.connected hnot), h.repair⟩
  | disconnect changed => exact quiet_disconnect h hs
  | throws =>
    simp only [step] at hs
    split at hs
    · cases hs
      exact ⟨h.repaired, fun _ => rfl, fun _ => .inl rfl, by simp⟩
    · cases hs
      exact ⟨h.repaired, fun _ => rfl, fun _ => .inl rfl, by simp⟩
    · cases hs

/-- **Then nothing is repaired, whatever was dropped.** -/
theorem repaired_alone (h : Reaches (step decodeBuffer) Alone {} s) : s.repaired = [] := by
  have hinitial : Quiet {} := ⟨rfl, fun _ => rfl, nofun, by simp⟩
  exact (h.invariant hinitial fun _ _ _ hquiet hok hstep => quiet_step hquiet hok hstep).repaired

end Download

end CaptureHPC
