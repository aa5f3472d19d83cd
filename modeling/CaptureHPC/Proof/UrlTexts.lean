import CaptureHPC.Proof.Evidence
import CaptureHPC.Proof.Resolve

/-!
# The texts of the URLs

What a URL is asked for never changes: a group keeps its URLs, and they keep their texts, programs and visit
times (`GroupMoves.keys`), from any state on that the server reaches (`moves_later`).
-/

namespace CaptureHPC

open Lib UrlGroup UrlGroupsController

variable {cfg : Config} {sdf : SimpleDateFormat} {w w' : World} {n : ℤ} {A B : ℕ → Prop} {g u v : ℕ}
  {t t' : UrlsController} {s s' : UrlGroupsController}

/-! ## A URL keeps its key -/

theorem UrlMove.key (h : UrlMove B t t') (u : ℕ) : (t'.url u).key = (t.url u).key := by
  cases h with
  | edit v x key =>
    by_cases huv : u = v
    · rw [huv, setUrl_self, key]
    · rw [setUrl_of_ne huv]
  | state v st => exact same_setUrlState (f := Url.key) (fun _ _ => rfl) (fun _ _ => rfl) v st t u
  | sending | queue | clock | counted => rfl

theorem UrlMoves.key (h : UrlMoves B t t') (u : ℕ) : (t'.url u).key = (t.url u).key := by
  induction h with
  | refl => rfl
  | tail _ hmove ih => exact (hmove.key u).trans ih

theorem addUrl_key (x : Url) (hu : u < t.size) : ((t.addUrl x).url u).key = (t.url u).key := by
  unfold UrlsController.addUrl
  split_ifs
  · rfl
  · show ((t.setUrl t.size x).url u).key = _
    rw [setUrl_of_ne hu.ne]

/-- Every URL that there is keeps its key. -/
theorem GroupMove.key (h : GroupMove n A s s') (hu : u < s.urls.size) : (s'.urls.url u).key = (s.urls.url u).key := by
  cases h with
  | urls t _ _ moves => exact moves.key u
  | add url clientProgram visitTime id => exact addUrl_key _ hu
  | take picks c r _ moves => exact UrlMoves.key moves u
  | work P g _ _ _ ht => exact ht.urls.key u
  | react g st _ _ _ moves => exact UrlMoves.key moves u

/-- The URLs of a group are URLs that there are. -/
theorem Lineage.url_lt (hs : Lineage s) (hg : g < s.size) (hu : u ∈ s.urlsOf g) : u < s.urls.size := by
  rw [hs.part g hg] at hu
  have hfirst := List.mem_flatMap.2 ⟨_, hs.first_mem hg, (part_sub _ _).subset hu⟩
  exact List.mem_range.1 (hs.urls.subset (List.mem_append_right _ hfirst))

/-- **A group keeps its URLs, and they keep their keys.** -/
theorem GroupMoves.keys (h : GroupMoves n A s s') (hs : Lineage s) (hg : g < s.size) : Lineage s' ∧
    s'.urlsOf g = s.urlsOf g ∧ ∀ u ∈ s.urlsOf g, (s'.urls.url u).key = (s.urls.url u).key := by
  induction h with
  | refl => exact ⟨hs, rfl, fun _ _ => rfl⟩
  | tail hmoves hmove ih =>
    obtain ⟨hs', hurls, hkeys⟩ := ih
    have hg' := Nat.lt_of_lt_of_le hg (GroupMoves.size_le hmoves)
    refine ⟨hs'.move hmove, (hmove.urlsOf hg').trans hurls, fun u hu => ?_⟩
    exact (hmove.key (hs'.url_lt hg' (hurls ▸ hu))).trans (hkeys u hu)

/-- The groups also move from any state on that the server reaches. -/
theorem moves_later (h : Reaches (World.act cfg sdf) anyStep {} w) (hlater : Reaches (World.act cfg sdf) anyStep w w') :
    GroupMoves cfg.groupSize (fun _ => True) w.groups w'.groups := by
  have hw : Pointers (fun _ => True) w := (moves_of_reaches (fun _ _ _ _ _ => trivial) h).1
  refine (hlater.invariant (P := fun w' => Pointers (fun _ => True) w' ∧
    GroupMoves cfg.groupSize (fun _ => True) w.groups w'.groups) ⟨hw, .refl⟩ fun w1 a w2 hw1 _ hact => ?_).2
  obtain ⟨hw2, hmoves⟩ := serves_act (fun _ _ => trivial) hact hw1.1
  exact ⟨hw2, hw1.2.trans hmoves⟩

end CaptureHPC
