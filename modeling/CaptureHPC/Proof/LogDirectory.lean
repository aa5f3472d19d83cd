import CaptureHPC.Spec.LogDirectory

/-!
# When the file driver has a log directory

* `freeLogDirectory_some`: a buffer that is owned can be freed, and none is left.
* `Owned.step`: no request frees a buffer that is not allocated.
* `collects_iff`: the driver collects only with a log directory exactly if no allocation fails while it collects.
-/

namespace CaptureHPC.Driver.FileManager

open Lib Cpp

variable {s s' : FileManager} {r : FileRequest} {rs : List FileRequest}

/-- The log directory is allocated, if there is one. -/
def Owned (s : FileManager) : Prop := ∀ buffer, s.logDirectory.buffer = some buffer → buffer ∈ s.pool.live

/-- While deleted files are collected there is a log directory. -/
def Collects (s : FileManager) : Prop :=
  s.bCollectDeletedFiles = true → ∃ buffer, s.logDirectory.buffer = some buffer ∧ buffer ∈ s.pool.live

/-- If the request asks for a log directory and gets no memory, then deleted files are not collected. -/
def Affords (s : FileManager) : FileRequest → Prop
  | .setupMonitor bufferSpace setup allocates =>
    bufferSpace = setupSize → setup.bCollectDeletedFiles = true → allocates = false → s.bCollectDeletedFiles = false
  | _ => True

/-- **What is owned can be freed.** -/
theorem freeLogDirectory_some (h : s.Owned) : ∃ s', s.freeLogDirectory = some s' ∧ s'.logDirectory.buffer = none ∧
    s'.bCollectDeletedFiles = s.bCollectDeletedFiles := by
  unfold freeLogDirectory
  cases hbuffer : s.logDirectory.buffer with
  | none => exact ⟨s, rfl, hbuffer, rfl⟩
  | some buffer =>
    have hfree : s.pool.free buffer = some _ := if_pos (h buffer hbuffer)
    simp only [hfree, bind, Option.bind]
    exact ⟨_, rfl, rfl, rfl⟩

theorem owned_of_none (h : s.logDirectory.buffer = none) : s.Owned := by
  intro buffer hbuffer
  rw [h] at hbuffer
  cases hbuffer

theorem buffer_cat (u : UnicodeString) (t : WString) : (u.cat t).buffer = u.buffer := rfl

/-- **One request**: it frees no buffer that is not allocated, and afterwards the driver collects only with a log
directory unless the allocation failed while it did. -/
theorem Owned.step (h : s.Owned) (r : FileRequest) :
    ∃ s', s.step r = some s' ∧ s'.Owned ∧ (s.Collects → (s'.Collects ↔ s.Affords r)) := by
  obtain ⟨freed, hfree, hnone, hflag⟩ := freeLogDirectory_some h
  -- the directory is freed and the flag is reset
  have hteardown : ∃ s', (s.freeLogDirectory.bind fun s => some { s with bCollectDeletedFiles := false }) = some s' ∧
      s'.Owned ∧ s'.Collects := by
    rw [hfree]
    refine ⟨_, rfl, owned_of_none hnone, fun h => ?_⟩
    cases h
  cases r with
  | disconnect =>
    obtain ⟨s', hs', howned, hcollects⟩ := hteardown
    exact ⟨s', hs', howned, fun _ => iff_of_true hcollects trivial⟩
  | unload =>
    obtain ⟨s', hs', howned, hcollects⟩ := hteardown
    exact ⟨s', hs', howned, fun _ => iff_of_true hcollects trivial⟩
  | setupMonitor bufferSpace setup allocates =>
    simp only [FileManager.step, setupMonitor, Affords]
    by_cases hsize : bufferSpace = setupSize
    · rw [if_pos hsize]
      by_cases hcollect : setup.bCollectDeletedFiles = true
      · rw [if_pos hcollect, hfree]
        cases allocates with
        | true =>
          refine ⟨_, rfl, ?_, fun _ => iff_of_true ?_ (fun _ _ h => by cases h)⟩
          · intro buffer hbuffer
            rw [buffer_cat, buffer_cat] at hbuffer
            exact Option.some.inj hbuffer ▸ List.mem_cons_self
          · intro _
            exact ⟨freed.pool.allocated, rfl, List.mem_cons_self⟩
        | false =>
          refine ⟨freed, rfl, owned_of_none hnone, fun _ => ⟨fun hnow _ _ _ => ?_, fun haffords hset => ?_⟩⟩
          · -- without a buffer the flag cannot be set
            rw [← hflag, ← Bool.not_eq_true]
            intro hset
            obtain ⟨buffer, hbuffer, -⟩ := hnow hset
            rw [hnone] at hbuffer
            cases hbuffer
          · rw [hflag, haffords hsize hcollect rfl] at hset
            cases hset
      · rw [if_neg hcollect]
        have hreset : ({ s with bCollectDeletedFiles := false } : FileManager).Owned := h
        obtain ⟨s', hs', hnone', hflag'⟩ := freeLogDirectory_some hreset
        refine ⟨s', hs', owned_of_none hnone', fun _ => iff_of_true (fun hset => ?_) fun _ h => absurd h hcollect⟩
        rw [hflag'] at hset
        cases hset
    · rw [if_neg hsize]
      exact ⟨s, rfl, h, fun hnow => iff_of_true hnow fun h => absurd h hsize⟩

theorem owned_start : Owned {} := owned_of_none rfl

theorem collects_start : Collects {} := fun h => by cases h

/-- **Every sequence of requests runs to its end.** -/
theorem run_owned (h : s.Owned) (rs : List FileRequest) : ∃ s', run step s rs = some s' ∧ s'.Owned := by
  induction rs generalizing s with
  | nil => exact ⟨s, rfl, h⟩
  | cons r rs ih =>
    obtain ⟨s', hs', howned, -⟩ := h.step r
    obtain ⟨s'', hs'', howned'⟩ := ih howned
    refine ⟨s'', ?_, howned'⟩
    rw [run_cons, hs']
    exact hs''

/-- **No buffer is freed twice, and the driver collects deleted files only with a log directory exactly if no
allocation of a log directory fails while it collects them.** The states are those after each request. -/
theorem collects_iff (rs : List FileRequest) :
    (∃ s, run step {} rs = some s) ∧
    ((∀ before after, rs = before ++ after → ∀ s, run step {} before = some s → s.Collects) ↔
      ∀ before r after, rs = before ++ r :: after → ∀ s, run step {} before = some s → s.Affords r) := by
  have hrun : ∀ before, ∃ s, run step {} before = some s ∧ s.Owned := run_owned owned_start
  refine ⟨(hrun rs).imp fun _ h => h.1, fun h before r after hrs s hs => ?_, fun h before => ?_⟩
  · obtain ⟨t, ht, howned⟩ := hrun before
    obtain rfl : s = t := Option.some.inj (hs.symm.trans ht)
    obtain ⟨s', hs', -, hiff⟩ := howned.step r
    have hnext : run step {} (before ++ [r]) = some s' := by
      rw [run_concat, hs]
      exact hs'
    exact (hiff (h before (r :: after) hrs s hs)).1 (h (before ++ [r]) after (by rw [hrs, List.append_cons]) s' hnext)
  · induction before using List.reverseRecOn with
    | nil =>
      intro after _ s hs
      exact Option.some.inj hs ▸ collects_start
    | append_singleton before r ih =>
      intro after hrs s hs
      rw [← List.append_cons] at hrs
      obtain ⟨t, ht, howned⟩ := hrun before
      obtain ⟨t', ht', -, hiff⟩ := howned.step r
      rw [run_concat, ht] at hs
      obtain rfl : t' = s := Option.some.inj (ht'.symm.trans hs)
      exact (hiff (ih (r :: after) hrs t ht)).2 (h before r after hrs t ht)

/-- The directory is set, and then another one for which there is no memory. -/
def twoSetups : List FileRequest :=
  [.setupMonitor setupSize ⟨true, 14, lit "C:\\logs"⟩ true, .setupMonitor setupSize ⟨true, 14, lit "D:\\logs"⟩ false]

/-- The driver goes on collecting without a log directory. -/
theorem twoSetups_collect : ¬∀ before after, twoSetups = before ++ after → ∀ s, run step {} before = some s → s.Collects := by
  intro h
  have hstate : ∃ s, run step {} twoSetups = some s ∧ s.bCollectDeletedFiles = true ∧ s.logDirectory.buffer = none := by
    refine ⟨_, rfl, rfl, rfl⟩
  obtain ⟨s, hs, hflag, hnone⟩ := hstate
  obtain ⟨buffer, hbuffer, -⟩ := h twoSetups [] (List.append_nil _).symm s hs hflag
  rw [hnone] at hbuffer
  cases hbuffer

end CaptureHPC.Driver.FileManager
