import CaptureHPC.Proof.Frames
import CaptureHPC.Proof.UrlMoves

/-!
# The groups as a machine of their own

Seen from the groups, the server does five things: it adds a URL, gives out a group (`take`), works on
a group without changing its place (`work`), changes a group's state (`react`), and lets time pass
(`urls`). Every program on a group is such a move, if the group was taken.

The clients of `A` may accuse the groups they took: only such a group becomes malicious (`Accusable`).
`Sound` is what the moves need to know of the state they start from.
-/

namespace CaptureHPC

open Lib Client UrlGroup UrlGroupsController

variable {sdf : SimpleDateFormat} {n : ℤ} {A : ℕ → Prop} {P Q : Prop} {g : ℕ} {s s' : UrlGroupsController}

/-- There is this group, and it was taken. -/
def Given (g : ℕ) (s : UrlGroupsController) : Prop := g < s.size ∧ ∃ c, .taken c g ∈ s.history

/-- One of the clients `A` took the group. -/
def Accusable (A : ℕ → Prop) (g : ℕ) (s : UrlGroupsController) : Prop := ∃ c, A c ∧ .taken c g ∈ s.history

/-- A move of the groups, with new groups of `n` URLs. -/
inductive GroupMove (n : ℤ) (A : ℕ → Prop) (s : UrlGroupsController) : UrlGroupsController → Prop
  | urls (t : UrlsController) (size : t.size = s.urls.size) (queue : t.urlQueue = s.urls.urlQueue)
      (moves : UrlMoves (fun _ => False) s.urls t) : GroupMove n A s { s with urls := t }
  | add (url clientProgram : String) (visitTime : Int32) (id : ℤ) :
      GroupMove n A s { s with urls := s.urls.addUrl (.new url clientProgram visitTime id) }
  | take {s' : UrlGroupsController} (picks : ℕ → ℕ) (c : ℕ) (r : Option ℕ) (h : TakeRun n picks c s r s')
      (moves : Unblamed s s') : GroupMove n A s s'
  | work {s' : UrlGroupsController} (P : Prop) (g : ℕ) (hg : Given g s) (hP : P → Accusable A g s) (h : GroupFrame g s s')
      (ht : Touches P g s s') : GroupMove n A s s'
  | react {s' : UrlGroupsController} (g : ℕ) (st : UrlGroupState) (hg : Given g s)
      (h : Reaction g ((s.group g).withState st) s s') (hu : UrlsFrame (s.group g).urlList s.urls s'.urls)
      (moves : Unblamed s s') : GroupMove n A s s'

/-- A sequence of moves. -/
abbrev GroupMoves (n : ℤ) (A : ℕ → Prop) : UrlGroupsController → UrlGroupsController → Prop :=
  Relation.ReflTransGen (GroupMove n A)

instance : Std.Refl (GroupMoves n A) := ⟨fun _ => .refl⟩

instance : IsTrans UrlGroupsController (GroupMoves n A) := ⟨fun _ _ _ => .trans⟩

/-- Polled URLs leave the size. -/
theorem polled_size (n : ℤ) (picks : ℕ → ℕ) (t : UrlsController) : (polled n picks t).2.size = t.size := by
  rw [polled, (takeUrls_perm picks _ t).1]
  rfl

/-! ## What a move leaves -/

theorem GroupMove.size_le (h : GroupMove n A s s') : s.size ≤ s'.size := by
  cases h with
  | urls | add => exact le_rfl
  | take picks c r h =>
    cases h with
    | popped | idle => exact le_rfl
    | fresh => exact Nat.le_succ _
  | work P g _ _ h => exact h.size.ge
  | react g st _ h =>
    cases h with
    | kept h => exact h.size.ge
    | retried _ _ _ h => exact h.size.ge
    | divided _ _ _ _ h => rw [h.size]; omega

/-- The history only grows. -/
theorem GroupMove.history_suffix (h : GroupMove n A s s') : s.history <:+ s'.history := by
  cases h with
  | urls | add => exact List.suffix_rfl
  | take picks c r h =>
    cases h with
    | popped | fresh => exact List.suffix_cons _ _
    | idle => exact List.suffix_rfl
  | work P g _ _ h => exact h.history ▸ List.suffix_rfl
  | react g st _ h =>
    cases h with
    | kept h => exact h.history ▸ List.suffix_rfl
    | retried _ _ _ h => exact h.history ▸ List.suffix_cons _ _
    | divided _ _ _ _ h => exact h.history ▸ List.suffix_cons _ _

theorem GroupMoves.size_le (h : GroupMoves n A s s') : s.size ≤ s'.size := by
  induction h with
  | refl => exact le_rfl
  | tail _ h ih => exact ih.trans h.size_le

theorem GroupMoves.history_suffix (h : GroupMoves n A s s') : s.history <:+ s'.history := by
  induction h with
  | refl => exact List.suffix_rfl
  | tail _ h ih => exact ih.trans h.history_suffix

theorem GroupMoves.given (h : GroupMoves n A s s') (hg : Given g s) : Given g s' := by
  obtain ⟨hlt, c, hmem⟩ := hg
  exact ⟨Nat.lt_of_lt_of_le hlt h.size_le, c, h.history_suffix.mem hmem⟩

theorem GroupMoves.accusable (h : GroupMoves n A s s') (hg : Accusable A g s) : Accusable A g s' := by
  obtain ⟨c, hc, hmem⟩ := hg
  exact ⟨c, hc, h.history_suffix.mem hmem⟩

/-- The groups on the stack are groups there are. -/
def Stacked (s : UrlGroupsController) : Prop := ∀ g ∈ s.urlGroupQueue, g < s.size

theorem GroupMove.stacked (h : GroupMove n A s s') (hs : Stacked s) : Stacked s' := by
  cases h with
  | urls | add => exact hs
  | take picks c r h =>
    cases h with
    | popped hq => exact fun i hi => hs i (hq ▸ List.mem_cons_of_mem _ hi)
    | idle => exact hs
    | fresh => exact fun i hi => Nat.lt_succ_of_lt (hs i hi)
  | work P g _ _ h => exact fun i hi => h.size ▸ hs i (h.queue ▸ hi)
  | react g st hg h =>
    cases h with
    | kept h => exact fun i hi => h.size ▸ hs i (h.queue ▸ hi)
    | retried _ _ _ h =>
      intro i hi
      rw [h.queue, List.mem_cons] at hi
      rw [h.size]
      rcases hi with rfl | hi
      · exact hg.1
      · exact hs i hi
    | divided _ _ _ _ h =>
      intro i hi
      rw [h.queue, List.mem_cons, List.mem_cons] at hi
      rw [h.size]
      rcases hi with rfl | rfl | hi
      · omega
      · omega
      · have := hs i hi
        omega

/-- A malicious group was taken by a client that may accuse it. -/
def Flagged (A : ℕ → Prop) (s : UrlGroupsController) : Prop :=
  ∀ g < s.size, (s.group g).malicious = true → Accusable A g s

theorem GroupMove.flagged (h : GroupMove n A s s') (hs : Flagged A s) : Flagged A s' := by
  have hkeep : ∀ {i}, Accusable A i s → Accusable A i s' := fun hi => GroupMoves.accusable (.single h) hi
  cases h with
  | urls | add => exact hs
  | take picks c r h =>
    cases h with
    | popped | idle => exact fun i hi hflag => hkeep (hs i hi hflag)
    | fresh _ hnew =>
      intro i hi hflag
      dsimp only at hflag
      obtain hlt | rfl : i < s.size ∨ i = s.size := Nat.lt_succ_iff_lt_or_eq.1 hi
      · rw [Function.update_of_ne (Nat.ne_of_lt hlt)] at hflag
        exact hkeep (hs i hlt hflag)
      · rw [Function.update_self, hnew.malicious] at hflag
        cases hflag
  | work P g hg hP h ht =>
    intro i hi hflag
    by_cases hig : i = g
    · rw [hig] at hflag ⊢
      rcases ht.flag hflag with hflag | hp
      · exact hkeep (hs g hg.1 hflag)
      · exact hkeep (hP hp)
    · rw [h.others i hig] at hflag
      exact hkeep (hs i (h.size ▸ hi) hflag)
  | react g st hg h =>
    have hold : ∀ {x : UrlGroup} {i}, (Function.update s.group g x i).malicious = true →
        x.malicious = (s.group g).malicious → i < s.size → Accusable A i s' := by
      intro x i hflag hx hi
      by_cases hig : i = g
      · rw [hig, Function.update_self, hx] at hflag
        exact hkeep (hs i hi (hig ▸ hflag))
      · rw [Function.update_of_ne hig] at hflag
        exact hkeep (hs i hi hflag)
    cases h with
    | kept h =>
      intro i hi hflag
      rw [h.group] at hflag
      exact hold hflag rfl (h.size ▸ hi)
    | retried _ _ _ h =>
      intro i hi hflag
      rw [h.group] at hflag
      exact hold hflag rfl (h.size ▸ hi)
    | divided x1 x2 _ _ h =>
      intro i hi hflag
      rw [h.size] at hi
      rw [h.group] at hflag
      obtain hlt | rfl | rfl : i < s.size ∨ i = s.size ∨ i = s.size + 1 := by omega
      · rw [Function.update_of_ne (by omega), Function.update_of_ne (by omega)] at hflag
        exact hold hflag rfl hlt
      · rw [Function.update_of_ne (by omega), Function.update_self, h.first.malicious] at hflag
        cases hflag
      · rw [Function.update_self, h.second.malicious] at hflag
        cases hflag

/-- What the moves need to know. -/
structure Sound (A : ℕ → Prop) (s : UrlGroupsController) : Prop where
  stacked : Stacked s
  flagged : Flagged A s

theorem Sound.start : Sound A {} := ⟨fun _ hg => absurd hg List.not_mem_nil, fun _ hg => absurd hg (Nat.not_lt_zero _)⟩

theorem GroupMoves.sound (h : GroupMoves n A s s') (hs : Sound A s) : Sound A s' := by
  induction h with
  | refl => exact hs
  | tail _ h ih => exact ⟨h.stacked ih.stacked, h.flagged ih.flagged⟩

/-! ## Programs on a group that was taken -/

/-- These are moves, if the group was taken, and if it was taken by a client that may accuse it in case
of `P`. -/
def On (n : ℤ) (A : ℕ → Prop) (P : Prop) (g : ℕ) (s s' : UrlGroupsController) : Prop :=
  Sound A s → Given g s → (P → Accusable A g s) → GroupMoves n A s s'

instance : Std.Refl (On n A P g) := ⟨fun _ _ _ _ => .refl⟩

instance : IsTrans UrlGroupsController (On n A P g) where
  trans _ _ _ h h' hs hg hP := by
    have h1 := h hs hg hP
    exact h1.trans (h' (h1.sound hs) (h1.given hg) fun hp => h1.accusable (hP hp))

theorem on_mono {α : Type} {m : GroupsM α} (hPQ : P → Q) (h : Keeps (On n A P g) m) : Keeps (On n A Q g) m :=
  fun s hs hg hQ => h s hs hg fun hp => hQ (hPQ hp)

theorem on_work {α : Type} {m : GroupsM α} (h : Keeps (GroupFrame g) m) (ht : Keeps (Touches P g) m) :
    Keeps (On n A P g) m :=
  fun s _ hg hP => .single (.work P g hg hP (h s) (ht s))

theorem on_state (st : UrlGroupState) : Keeps (On n A P g) (setUrlGroupState g st) := fun s _ hg _ =>
  .single (.react g st hg (setUrlGroupState_cases g st s).1 (setUrlGroupState_cases g st s).2
    (unblamed_setUrlGroupState g st s))

theorem on_code (code : ℤ) : Keeps (On n A P g) (UrlGroup.setMajorErrorCode g code) :=
  on_work (frame_setMajorErrorCode _) (touches_code _)

theorem on_startTime (time : Option String) : Keeps (On n A P g) (UrlGroup.setVisitStartTime sdf g time) :=
  on_work (frame_setVisitStartTime _ _) (touches_startTime _)

theorem on_finishTime (time : Option String) : Keeps (On n A P g) (UrlGroup.setVisitFinishTime sdf g time) :=
  on_work (frame_setVisitFinishTime _ _) (touches_finishTime _)

theorem on_finishTimes (g : ℕ) (s : UrlGroupsController) :
    On n A P g s (final ((onUrls (forM (s.group g).urlList Url.setVisitFinishTime)).run s)) := fun _ hg hP =>
  .single (.work P g hg hP (frame_onUrls (frame_forM fun _ _ => keeps_setVisitFinishTime (by simp)))
    (touches_finishTimes _ s))

theorem on_algorithm (algorithm : Option String) : Keeps (On n A P g) (setAlgorithm g algorithm) :=
  on_work (frame_setAlgorithm _) (touches_algorithm _)

theorem on_verdict (algorithm : Option String) (b : Bool) (map : Option UrlMap) :
    Keeps (On n A (b = true ∨ ∃ m, map = some m ∧ Told m) g) (UrlGroup.setMalicious g algorithm b map) :=
  on_work (frame_setMalicious _ _ _) (touches_verdict _ _ _)

theorem on_event (text : String) : Keeps (On n A True g) (UrlGroup.writeEventToLog sdf g text) :=
  on_work (frame_writeEventToLog _ _) (touches_event _)

theorem on_map (map : UrlMap) : Keeps (On n A (Told map) g) (writeMapToLog sdf g map) :=
  on_work (frame_writeMapToLog _ _) (touches_map _)

theorem on_started (item : Element) : Keeps (On n A P g) (startItem g item) :=
  on_work (frame_startItem _) (touches_started _)

theorem on_parsed (finish : Bool) (handler : StateChangeHandler) (item : Element) :
    Keeps (On n A P g) (parseItem finish handler sdf g item) :=
  on_work (frame_parseItem _ _ _ _) (touches_parsed _ _ _)

theorem on_sending (address : Option String) : Keeps (On n A P g) (logSending g address) := by
  have hframe : Keeps (GroupFrame g) (logSending g address) := by
    refine fun s => final_bind (refl s) fun s' t hget => ?_
    cases hget
    exact frame_onUrls fun t => (onlyLogs_writeToLog _).frame
  exact on_work hframe (touches_sending _)

theorem on_address (address : Option String) : Keeps (On n A P g) (setAddress g address) := by
  have hframe : Keeps (GroupFrame g) (setAddress g address) := by
    unfold setAddress
    split_ifs
    · exact keeps_pure _
    · exact frame_setProcessingIP _
  exact on_work hframe (touches_address _)

end CaptureHPC
