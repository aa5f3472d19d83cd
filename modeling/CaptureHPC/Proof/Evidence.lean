import CaptureHPC.Proof.Lineage

/-!
# No verdict without evidence

A URL is malicious only if a client took a group with this URL and sent a message that accuses it: a
system-event, or a visit-event with the attribute `malicious="1"`. So it is in every run, whatever
the order of its steps (`malicious_accused`).
-/

namespace CaptureHPC

open Lib UrlGroup UrlGroupsController

variable {cfg : Config} {sdf : SimpleDateFormat} {w : World} {n : ℤ} {A B : ℕ → Prop} {g u : ℕ}
  {s s' : UrlGroupsController} {t t' : UrlsController}

theorem UrlMove.verdict (h : UrlMove B t t') (hu : (t'.url u).malicious = some true) :
    (t.url u).malicious = some true ∨ B u := by
  cases h with
  | edit v x _ _ verdict =>
    by_cases huv : u = v
    · rw [huv, setUrl_self] at hu
      exact huv ▸ verdict hu
    · rw [setUrl_of_ne huv] at hu
      exact .inl hu
  | state v st =>
    have hsame := same_setUrlState (f := Url.malicious) (fun _ _ => rfl) (fun _ _ => rfl) v st t u
    exact .inl (hsame ▸ hu)
  | sending | queue | clock | counted => exact .inl hu

/-- What has become malicious is in `B`. -/
theorem UrlMoves.verdict (h : UrlMoves B t t') (hu : (t'.url u).malicious = some true) :
    (t.url u).malicious = some true ∨ B u := by
  induction h with
  | refl => exact .inl hu
  | tail _ hmove ih =>
    rcases hmove.verdict hu with hu | hB
    · exact ih hu
    · exact .inr hB

/-- The groups that there are keep their URLs. -/
theorem GroupMove.urlsOf (h : GroupMove n A s s') (hg : g < s.size) : s'.urlsOf g = s.urlsOf g := by
  unfold UrlGroupsController.urlsOf
  cases h with
  | urls | add => rfl
  | take picks c r h =>
    cases h with
    | popped | idle => rfl
    | fresh => exact congrArg UrlGroup.urlList (Function.update_of_ne (Nat.ne_of_lt hg) _ _)
  | work P i _ _ h =>
    by_cases hgi : g = i
    · rw [hgi, h.urlList]
    · rw [h.others g hgi]
  | react i st hi h =>
    cases h with
    | kept h =>
      rw [h.group]
      refine urlList_update ?_ g
      rfl
    | retried _ _ _ h =>
      rw [h.group]
      refine urlList_update ?_ g
      rfl
    | divided _ _ _ _ h =>
      rw [h.group, Function.update_of_ne (by omega), Function.update_of_ne (by omega)]
      refine urlList_update ?_ g
      rfl

/-- Every malicious URL is in a group that was taken by a client that may accuse it. -/
def Evidence (A : ℕ → Prop) (s : UrlGroupsController) : Prop :=
  ∀ u, (s.urls.url u).malicious = some true → ∃ g < s.size, u ∈ s.urlsOf g ∧ Accusable A g s

theorem GroupMove.evidence (h : GroupMove n A s s') (hs : Evidence A s) : Evidence A s' := by
  have hold : ∀ {u}, (s.urls.url u).malicious = some true → ∃ g < s'.size, u ∈ s'.urlsOf g ∧ Accusable A g s' := by
    intro u hu
    obtain ⟨g, hg, hmem, hacc⟩ := hs u hu
    refine ⟨g, Nat.lt_of_lt_of_le hg h.size_le, ?_, GroupMoves.accusable (.single h) hacc⟩
    rw [h.urlsOf hg]
    exact hmem
  intro u hu
  cases h with
  | urls t _ _ moves => exact hold ((moves.verdict hu).resolve_right id)
  | add url clientProgram visitTime id =>
    refine hold ?_
    dsimp only at hu
    unfold UrlsController.addUrl at hu
    split_ifs at hu
    · exact hu
    · -- a new URL has no verdict
      by_cases hnew : u = s.urls.size
      · have hself := congrArg Url.malicious (setUrl_self (s := s.urls) s.urls.size (.new url clientProgram visitTime id))
        rw [hnew] at hu
        cases hself.symm.trans hu
      · exact (congrArg Url.malicious (setUrl_of_ne (s := s.urls) hnew _)).symm.trans hu
  | take _ _ _ _ moves => exact hold ((UrlMoves.verdict moves hu).resolve_right id)
  | work P g hg hP h ht =>
    rcases ht.urls.verdict hu with hu | ⟨hp, hmem⟩
    · exact hold hu
    · have hmove : GroupMove n A s s' := .work P g hg hP h ht
      refine ⟨g, Nat.lt_of_lt_of_le hg.1 hmove.size_le, ?_, GroupMoves.accusable (.single hmove) (hP hp)⟩
      rw [hmove.urlsOf hg.1]
      exact hmem
  | react _ _ _ _ _ moves => exact hold ((UrlMoves.verdict moves hu).resolve_right id)

theorem evidence_of_moves (h : GroupMoves n A {} s) : Evidence A s := by
  induction h with
  | refl => exact fun _ hu => by cases hu
  | tail _ hmove ih => exact hmove.evidence ih

/-- **No verdict without evidence.** A malicious URL is in a group that was taken by a client that
accused, and a malicious group was taken by such a client. -/
theorem malicious_accused {acts : List Act} (h : run (World.act cfg sdf) {} acts = some w) :
    (∀ u, (w.groups.urls.url u).malicious = some true →
      ∃ g < w.groups.size, u ∈ w.groups.urlsOf g ∧ ∃ c, (∃ a ∈ acts, a.Accuses c) ∧ .taken c g ∈ w.groups.history) ∧
    ∀ g < w.groups.size, (w.groups.group g).malicious = true →
      ∃ c, (∃ a ∈ acts, a.Accuses c) ∧ .taken c g ∈ w.groups.history := by
  have hreach : Reaches (World.act cfg sdf) (fun _ a => a ∈ acts) {} w := .of_run (fun a ha _ => ha) h
  obtain ⟨hpointers, hmoves⟩ := moves_of_reaches (A := fun c => ∃ a ∈ acts, a.Accuses c)
    (fun _ a c ha hacc => ⟨a, ha, hacc⟩) hreach
  exact ⟨evidence_of_moves hmoves, hpointers.sound.flagged⟩

/-- The client says that its visit was malicious. -/
theorem malicious_accused_finish : ∃ w, run (World.act (groupsOf 2) .utc) {} (splitTwo.map .piece) = some w ∧
    (∀ u, (w.groups.urls.url u).malicious = some true → ∃ g < w.groups.size, u ∈ w.groups.urlsOf g ∧
      ∃ c, (∃ a ∈ splitTwo.map Act.piece, a.Accuses c) ∧ .taken c g ∈ w.groups.history) ∧
    ∀ g < w.groups.size, (w.groups.group g).malicious = true →
      ∃ c, (∃ a ∈ splitTwo.map Act.piece, a.Accuses c) ∧ .taken c g ∈ w.groups.history :=
  ⟨_, rfl, malicious_accused rfl⟩

end CaptureHPC
