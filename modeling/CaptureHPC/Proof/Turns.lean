import CaptureHPC.Proof.GroupCalls

/-!
# How often a group is taken

However the calls come beside each other, a group has been returned by `takeUrlGroup`, or is on the stack, once
more than it was put back (`Made.balance`). A group is put back when it fails for the first time and never again,
as long as no call of `setUrlGroupState` begins for a group that another call is not done with (`Alone`): two such
calls both read `errorCount` before they write it, and both put the group back.

So in these runs a group has at most two turns (`turns_bounded`).
-/

namespace CaptureHPC

open Lib

namespace GroupCalls

variable {groupSize : ℤ} {s s' t : GroupCalls} {a : GroupStep} {g h i j : ℕ} {c c' : GroupCall}

/-- A call of `setUrlGroupState` begins when the last one for the group has returned. -/
def Alone (s : GroupCalls) : GroupStep → Prop
  | .setUrlGroupState g _ => ∀ c ∈ s.calls, c.group ≠ some g
  | _ => True

instance (s : GroupCalls) (a : GroupStep) : Decidable (s.Alone a) :=
  match a with
  | .setUrlGroupState g _ => inferInstanceAs (Decidable (∀ c ∈ s.calls, c.group ≠ some g))
  | .inUrlQueue _ | .addUrl _ | .takeUrlGroup | .take .. | .update .. => .isTrue trivial

/-- **Turns and places on the stack.** -/
theorem Made.balance (hs : s.Made) (ha : s.takes.Accounted) (hg : g < s.size) :
    s.turns g + s.takes.urlGroupQueue.count g = 1 + s.putBack.count g := by
  have hcount := ha.groups.count_eq g
  rw [List.count_append, ← count_popped, hs.pushed] at hcount
  have hturns : s.turns g = s.takes.calls.count (.returned (some (.popped g))) + if s.IsFirst g = true then 1 else 0 := by
    unfold turns IsFirst
    rw [if_pos hg]
    cases (s.group g).source <;> rfl
  cases hfirst : s.IsFirst g <;> simp [hfirst, hg] at hcount hturns <;> omega

/-- What a call that is not done has found, when it is alone with its group. -/
def Found (s : GroupCalls) : GroupCall → Prop
  | .counted g n => n = (s.group g).errorCount
  | .ifVisiting g | .ifVisited g | .ifError g => (s.group g).urlGroupState = .error →
      0 < (s.group g).errorCount ∧ ((s.group g).errorCount ≤ 1 → s.putBack.count g = 0)
  | .ifRetry g => 0 < (s.group g).errorCount ∧ ((s.group g).errorCount ≤ 1 → s.putBack.count g = 0)
  | .retrying g => 0 < (s.group g).errorCount ∧ s.putBack.count g = 0
  | _ => True

/-- What a call has found depends on its own group only. -/
theorem found_congr (hc : c.group = some g) (hgroup : t.group g = s.group g)
    (hback : t.putBack.count g = s.putBack.count g) : t.Found c ↔ s.Found c := by
  cases c with
  | returned h => exact nomatch hc
  | _ =>
    obtain rfl := Option.some.inj hc
    simp only [Found, hgroup, hback]

/-- The calls are alone with their groups, and a group that has never failed was never put back. -/
structure Single (s : GroupCalls) : Prop where
  alone : ∀ (i j : ℕ) (c d : GroupCall) (g : ℕ), s.calls[i]? = some c → s.calls[j]? = some d → c.group = some g →
    d.group = some g → i = j
  found : ∀ c ∈ s.calls, s.Found c
  putBack : ∀ g, s.putBack.count g ≤ 1 ∧ ((s.group g).errorCount = 0 → s.putBack.count g = 0)

theorem Single.start : Single {} where
  alone i j c d g hc := by simp at hc
  found _ hc := absurd hc List.not_mem_nil
  putBack _ := ⟨Nat.zero_le _, fun _ => rfl⟩

/-- A group is made. -/
theorem Single.new (hs : s.Single) (hmade : s.Made) (urlList : List ℕ) (source : GroupSource) :
    (s.new urlList source).Single := by
  refine ⟨hs.alone, fun c hc => ?_, fun g => ⟨(hs.putBack g).1, fun h0 => ?_⟩⟩
  · cases hg : c.group with
    | none =>
      cases c with
      | returned g => exact trivial
      | _ => exact nomatch hg
    | some g => exact (found_congr hg (new_group (hmade.calls c hc g hg).1) rfl).2 (hs.found c hc)
  · by_cases hg : g < s.size
    · exact (hs.putBack g).2 ((congrArg CalledGroup.errorCount (new_group hg)).symm.trans h0)
    · exact hmade.unmade (Nat.not_lt.1 hg)

/-- A call does something to its group and goes on. -/
theorem Single.act (hs : s.Single) (hcall : s.calls[j]? = some c) (hc : c.group = some g)
    (hc' : c'.group = some g ∨ c'.group = none) (calls : t.calls = s.calls)
    (others : ∀ h ≠ g, t.group h = s.group h ∧ t.putBack.count h = s.putBack.count h) (hfound : t.Found c')
    (hself : t.putBack.count g ≤ 1 ∧ ((t.group g).errorCount = 0 → t.putBack.count g = 0)) : (t.setCall j c').Single := by
  have hj : j < s.calls.length := (List.getElem?_eq_some_iff.1 hcall).1
  have hget : ∀ {i : ℕ} {d : GroupCall}, (s.calls.set j c')[i]? = some d →
      i = j ∧ d = c' ∨ i ≠ j ∧ s.calls[i]? = some d := fun {i d} hd => by
    by_cases hi : i = j
    · rw [hi, List.getElem?_set_self hj] at hd
      exact .inl ⟨hi, (Option.some.inj hd).symm⟩
    · rw [List.getElem?_set_ne (Ne.symm hi)] at hd
      exact .inr ⟨hi, hd⟩
  -- no other call is on this group
  have hother : ∀ (i : ℕ) (d : GroupCall), i ≠ j → s.calls[i]? = some d → d.group ≠ some g := fun i d hi hd hg =>
    hi (hs.alone i j d c g hd hcall hg hc)
  refine ⟨fun i k d e h hd he hdh heh => ?_, fun d hd => ?_, fun h => ?_⟩
  · rw [show (t.setCall j c').calls = s.calls.set j c' by rw [← calls]; rfl] at hd he
    -- two calls on one group: this one may be one of them
    rcases hget hd with ⟨rfl, rfl⟩ | ⟨hi, hdi⟩ <;> rcases hget he with ⟨rfl, rfl⟩ | ⟨hk, hek⟩
    · rfl
    · rcases hc' with hc' | hc'
      · obtain rfl : g = h := Option.some.inj (hc'.symm.trans hdh)
        exact absurd heh (hother k e hk hek)
      · exact nomatch hc'.symm.trans hdh
    · rcases hc' with hc' | hc'
      · obtain rfl : g = h := Option.some.inj (hc'.symm.trans heh)
        exact absurd hdh (hother i d hi hdi)
      · exact nomatch hc'.symm.trans heh
    · exact hs.alone i k d e h hdi hek hdh heh
  · obtain ⟨i, hd⟩ := List.mem_iff_getElem?.1 hd
    rw [show (t.setCall j c').calls = s.calls.set j c' by rw [← calls]; rfl] at hd
    rcases hget hd with ⟨rfl, rfl⟩ | ⟨hi, hd⟩
    · exact hfound
    · have hold := hs.found d (List.mem_of_getElem? hd)
      cases hdg : d.group with
      | none =>
        cases d with
        | returned h => exact trivial
        | _ => exact nomatch hdg
      | some h =>
        have hne : h ≠ g := fun heq => hother i d hi hd (heq ▸ hdg)
        exact (found_congr hdg (others h hne).1 (others h hne).2).2 hold
  · by_cases hg : h = g
    · rw [hg]
      exact hself
    · show t.putBack.count h ≤ 1 ∧ ((t.group h).errorCount = 0 → t.putBack.count h = 0)
      rw [(others h hg).1, (others h hg).2]
      exact hs.putBack h

/-- A call goes on and does nothing to its group. -/
theorem Single.go (hs : s.Single) (hcall : s.calls[j]? = some c) (hc : c.group = some g)
    (hc' : c'.group = some g ∨ c'.group = none) (hfound : s.Found c') : (s.setCall j c').Single :=
  hs.act hcall hc hc' rfl (fun _ _ => ⟨rfl, rfl⟩) hfound (hs.putBack g)

/-- A call begins for a group that no other call is on. -/
theorem Single.begins (hs : s.Single) (halone : ∀ c ∈ s.calls, c.group ≠ some g) (newState : UrlGroupState) :
    ({ s with calls := s.calls ++ [.started g newState] } : GroupCalls).Single := by
  have hget : ∀ {i : ℕ} {d : GroupCall}, (s.calls ++ [.started g newState])[i]? = some d →
      s.calls[i]? = some d ∨ i = s.calls.length ∧ d = .started g newState := fun {i d} hd => by
    obtain hi | hi := Nat.lt_or_ge i s.calls.length
    · rw [List.getElem?_append_left hi] at hd
      exact .inl hd
    · rw [List.getElem?_append_right hi, List.getElem?_singleton] at hd
      split_ifs at hd
      exact .inr ⟨by omega, (Option.some.inj hd).symm⟩
  refine ⟨fun i k d e h hd he hdh heh => ?_, fun d hd => ?_, hs.putBack⟩
  · rcases hget hd with hdi | ⟨rfl, rfl⟩ <;> rcases hget he with hek | ⟨rfl, rfl⟩
    · exact hs.alone i k d e h hdi hek hdh heh
    · obtain rfl : g = h := Option.some.inj heh
      exact absurd hdh (halone d (List.mem_of_getElem? hdi))
    · obtain rfl : g = h := Option.some.inj hdh
      exact absurd heh (halone e (List.mem_of_getElem? hek))
    · rfl
  · rcases List.mem_append.1 hd with hd | hd
    · exact hs.found d hd
    · obtain rfl := List.mem_singleton.1 hd
      exact trivial

/-- **One operation of a call.** -/
theorem Single.goes (hs : s.Single) (hmade : s.Made) (hcall : s.calls[j]? = some c) (hgoes : s.Goes g c t c') :
    (t.setCall j c').Single := by
  obtain ⟨hc, hc'⟩ := hgoes.group
  have hself := hs.putBack g
  have hfound := hs.found c (List.mem_of_getElem? hcall)
  have hset : ∀ x : CalledGroup, ∀ i ≠ g, (s.setGroup g x).group i = s.group i ∧
      (s.setGroup g x).putBack.count i = s.putBack.count i := fun x i hi => ⟨Function.update_of_ne hi _ _, rfl⟩
  cases hgoes with
  | writes newState =>
    refine hs.act hcall hc hc' rfl (hset _) trivial ?_
    show s.putBack.count g ≤ 1 ∧ ((Function.update s.group g _ g).errorCount = 0 → _)
    rw [Function.update_self]
    exact hself
  | counts n =>
    -- no other call has written the count since it was read
    obtain rfl : n = (s.group g).errorCount := hfound
    have hgroup : (s.setGroup g { s.group g with errorCount := (s.group g).errorCount + 1 }).group g =
      { s.group g with errorCount := (s.group g).errorCount + 1 } := Function.update_self _ _ _
    refine hs.act hcall hc hc' rfl (hset _) (fun _ => ?_) ⟨hself.1, fun h0 => ?_⟩
    · rw [hgroup]
      exact ⟨Nat.succ_pos _, fun hle => hself.2 (by dsimp only at hle; omega)⟩
    · rw [hgroup] at h0
      exact absurd h0 (Nat.succ_ne_zero _)
  | failing => exact hs.go hcall hc hc' trivial
  | another state => exact hs.go hcall hc hc' fun herror => absurd herror state
  | reads => exact hs.go hcall hc hc' rfl
  | notVisiting => exact hs.go hcall hc hc' hfound
  | notVisited => exact hs.go hcall hc hc' hfound
  | failed state => exact hs.go hcall hc hc' (hfound state)
  | splits => exact hs.go hcall hc hc' trivial
  | retries errors => exact hs.go hcall hc hc' ⟨hfound.1, hfound.2 errors⟩
  | ends => exact hs.go hcall hc hc' trivial
  | putsBack =>
    refine hs.act hcall hc hc' rfl (fun i hi => ⟨rfl, List.count_cons_of_ne (Ne.symm hi)⟩) trivial ?_
    show (g :: s.putBack).count g ≤ 1 ∧ ((s.group g).errorCount = 0 → _)
    rw [List.count_cons_self, hfound.2]
    exact ⟨le_rfl, fun h0 => absurd h0 (Nat.ne_of_gt hfound.1)⟩
  | divides second =>
    have hnew := hs.new hmade (half second (s.group g).urlList) (.half g second)
    have hpush : ((s.new (half second (s.group g).urlList) (.half g second)).push s.size).Single :=
      ⟨hnew.alone, hnew.found, hnew.putBack⟩
    refine hpush.go hcall hc hc' ?_
    cases second with
    | false => exact trivial
    | true => exact trivial

/-- **One step.** -/
theorem Single.step (hs : s.Single) (hmade : s.Made) (hok : s.Alone a) (hstep : s.step groupSize a = some s') :
    s'.Single := by
  cases does_of_step hstep with
  | finds => exact hs
  | asks | adds | begins | takes => exact ⟨hs.alone, hs.found, hs.putBack⟩
  | makes i pick t urlList =>
    have hnew := hs.new hmade urlList (.call i)
    exact ⟨hnew.alone, hnew.found, hnew.putBack⟩
  | calls g newState => exact hs.begins hok newState
  | goes j dacMalicious leaves hcall hgoes => exact hs.goes hmade hcall hgoes

/-! ## Turns only become more -/

theorem source_of_step (hstep : s.step groupSize a = some s') (hg : g < s.size) :
    g < s'.size ∧ (s'.group g).source = (s.group g).source := by
  have hset : ∀ h (x : CalledGroup), x.source = (s.group h).source →
      (Function.update s.group h x g).source = (s.group g).source := fun h x hx => by
    by_cases hgh : g = h
    · rw [hgh, Function.update_self, hx]
    · rw [Function.update_of_ne hgh]
  cases does_of_step hstep with
  | finds | asks | adds | begins | takes | calls => exact ⟨hg, rfl⟩
  | makes => exact ⟨Nat.lt_succ_of_lt hg, congrArg CalledGroup.source (new_group hg)⟩
  | goes j dacMalicious leaves hcall hgoes =>
    cases hgoes with
    | writes newState => exact ⟨hg, hset _ _ rfl⟩
    | counts n => exact ⟨hg, hset _ _ rfl⟩
    | divides second => exact ⟨Nat.lt_succ_of_lt hg, congrArg CalledGroup.source (new_group hg)⟩
    | _ => exact ⟨hg, rfl⟩

/-- A call that has returned stays so. -/
theorem count_popped_le {t t' : TakeCalls} {b : TakeStep} (h : t.step groupSize b = some t') (g : ℕ) :
    t.calls.count (.returned (some (.popped g))) ≤ t'.calls.count (.returned (some (.popped g))) := by
  cases b with
  | push g =>
    obtain rfl := Option.some.inj h
    exact le_rfl
  | addUrl =>
    obtain rfl := Option.some.inj h
    exact le_rfl
  | call =>
    obtain rfl := Option.some.inj h
    exact (List.sublist_append_left _ _).count_le _
  | next i pick =>
    obtain ⟨c, c', hcall, hgoing, hcalls, -, -⟩ := TakeCalls.next_calls h
    have hcount := countP_set_add (· == TakeCall.returned (some (.popped g))) hcall c'
    have hc : (c == TakeCall.returned (some (.popped g))) = false := beq_false_of_ne (hgoing _)
    rw [hc] at hcount
    rw [hcalls]
    exact Nat.le.intro hcount.symm

theorem turns_le (hstep : s.step groupSize a = some s') (hg : g < s.size) : s.turns g ≤ s'.turns g := by
  obtain ⟨hg', hsource⟩ := source_of_step hstep hg
  unfold turns
  rw [if_pos hg, if_pos hg', hsource]
  refine Nat.add_le_add_right ?_ _
  obtain hsame | ⟨b, hb⟩ := takes_of_step hstep
  · rw [hsame]
  · exact count_popped_le hb g

/-- A call is for a group that was taken, and puts back its group. -/
theorem on_of_step (hstep : s.step groupSize a = some s') :
    (∀ c ∈ s'.calls, ∀ g, c.group = some g → 0 < s.turns g ∨ ∃ d ∈ s.calls, d.group = some g) ∧
      ∀ g ∈ s'.putBack, g ∈ s.putBack ∨ ∃ d ∈ s.calls, d.group = some g := by
  have hsame : (∀ c ∈ s.calls, ∀ g, c.group = some g → 0 < s.turns g ∨ ∃ d ∈ s.calls, d.group = some g) ∧
      ∀ g ∈ s.putBack, g ∈ s.putBack ∨ ∃ d ∈ s.calls, d.group = some g :=
    ⟨fun c hc g hg => .inr ⟨c, hc, hg⟩, fun g hg => .inl hg⟩
  cases does_of_step hstep with
  | finds | asks | adds | begins | takes | makes => exact hsame
  | calls g newState taken =>
    refine ⟨fun c hc h hh => ?_, hsame.2⟩
    rcases List.mem_append.1 hc with hc | hc
    · exact hsame.1 c hc h hh
    · obtain rfl := List.mem_singleton.1 hc
      obtain rfl := Option.some.inj hh
      exact .inl taken
  | @goes j dacMalicious leaves g c c' t hcall hgoes =>
    obtain ⟨hc, hc'⟩ := hgoes.group
    have hon : ∃ d ∈ s.calls, d.group = some g := ⟨c, List.mem_of_getElem? hcall, hc⟩
    have hset : ∀ d ∈ s.calls.set j c', ∀ h, d.group = some h → 0 < s.turns h ∨ ∃ e ∈ s.calls, e.group = some h := by
      intro d hd h hh
      rcases List.mem_or_eq_of_mem_set hd with hd | rfl
      · exact hsame.1 d hd h hh
      · rcases hc' with hc' | hc'
        · obtain rfl : g = h := Option.some.inj (hc'.symm.trans hh)
          exact .inr hon
        · exact nomatch hc'.symm.trans hh
    cases hgoes with
    | putsBack =>
      refine ⟨hset, fun h hh => ?_⟩
      rcases List.mem_cons.1 hh with rfl | hh
      · exact .inr hon
      · exact .inl hh
    | _ => exact ⟨hset, hsame.2⟩

/-- The groups that calls are on, or were put back, have been taken. -/
structure Taken (s : GroupCalls) : Prop where
  calls : ∀ c ∈ s.calls, ∀ g, c.group = some g → 0 < s.turns g
  putBack : ∀ g ∈ s.putBack, 0 < s.turns g

theorem Taken.start : Taken {} := ⟨fun _ hc => absurd hc List.not_mem_nil, fun _ hg => absurd hg List.not_mem_nil⟩

/-- **One step.** -/
theorem Taken.step (hs : s.Taken) (ha : s.takes.Accounted) (hmade : s.Made) (hstep : s.step groupSize a = some s') :
    s'.Taken := by
  have hle : ∀ g, 0 < s.turns g → 0 < s'.turns g := fun g hg => hg.trans_le (turns_le hstep (hmade.lt_of_turns ha hg))
  obtain ⟨hcalls, hback⟩ := on_of_step hstep
  refine ⟨fun c hc g hg => ?_, fun g hg => ?_⟩
  · rcases hcalls c hc g hg with hturns | ⟨d, hd, hdg⟩
    · exact hle g hturns
    · exact hle g (hs.calls d hd g hdg)
  · rcases hback g hg with hg | ⟨d, hd, hdg⟩
    · exact hle g (hs.putBack g hg)
    · exact hle g (hs.calls d hd g hdg)

/-- What is known of the runs in which the calls are alone. -/
theorem single_of_reaches (h : Reaches (GroupCalls.step groupSize) Alone {} s) : s.Single ∧ s.Taken := by
  induction h with
  | start => exact ⟨.start, .start⟩
  | next h hok hstep ih =>
    obtain ⟨haccounted, hmade⟩ := made_of_reaches (h.weaken fun _ _ _ => trivial)
    exact ⟨ih.1.step hmade hok hstep, ih.2.step haccounted hmade hstep⟩

/-- **A group is taken at most twice.** It has been returned, or is on the stack, once more than it was put
back, in every run. If the calls of `setUrlGroupState` for a group come one after the other, it is put back
at most once, and the stack has it at most once. -/
theorem turns_bounded (groupSize : ℤ) :
    (∀ s, Reaches (GroupCalls.step groupSize) anyStep {} s → ∀ g < s.size,
      s.turns g + s.takes.urlGroupQueue.count g = 1 + s.putBack.count g) ∧
      ∀ s, Reaches (GroupCalls.step groupSize) Alone {} s → s.takes.urlGroupQueue.Nodup ∧ ∀ g, s.putBack.count g ≤ 1 := by
  have hbalance : ∀ s, Reaches (GroupCalls.step groupSize) anyStep {} s → ∀ g < s.size,
      s.turns g + s.takes.urlGroupQueue.count g = 1 + s.putBack.count g := fun s h g hg => by
    obtain ⟨haccounted, hmade⟩ := made_of_reaches h
    exact hmade.balance haccounted hg
  refine ⟨hbalance, fun s h => ?_⟩
  obtain ⟨hsingle, htaken⟩ := single_of_reaches h
  have hany : Reaches (GroupCalls.step groupSize) anyStep {} s := h.weaken fun _ _ _ => trivial
  obtain ⟨haccounted, hmade⟩ := made_of_reaches hany
  refine ⟨List.nodup_iff_count_le_one.2 fun g => ?_, fun g => (hsingle.putBack g).1⟩
  by_cases hg : g < s.size
  · have hcount := hbalance s hany g hg
    have hback := (hsingle.putBack g).1
    by_cases hmem : g ∈ s.putBack
    · have := htaken.putBack g hmem
      omega
    · have := List.count_eq_zero.2 hmem
      omega
  · -- a group that is not there was never pushed
    have hcount := haccounted.groups.count_eq g
    rw [List.count_append, hmade.pushed, hmade.unmade (Nat.not_lt.1 hg), if_neg fun hlt => hg hlt.1] at hcount
    omega

/-- A group is taken. -/
def takesOne : List GroupStep := adds "a" ++ [.takeUrlGroup] ++ List.replicate 5 (.take 0 0)

/-- It fails, is put back and taken again, and fails again. -/
def failsTwice : List GroupStep :=
  takesOne ++ [.setUrlGroupState 0 .error] ++ List.replicate 9 (.update 0 false false) ++
    [.takeUrlGroup, .take 1 0, .take 1 0, .setUrlGroupState 0 .error] ++ List.replicate 8 (.update 1 false false)

theorem turns_bounded_twice : ∃ s : GroupCalls, s.turns 0 = 2 ∧
    s.turns 0 + s.takes.urlGroupQueue.count 0 = 1 + s.putBack.count 0 ∧ s.takes.urlGroupQueue.Nodup ∧
      ∀ g, s.putBack.count g ≤ 1 := by
  have hrun : (run (guarded (GroupCalls.step 1) Alone) {} failsTwice).map (fun s => (s.turns 0, s.size)) = some (2, 1) := by
    decide +kernel
  obtain ⟨s, hs, hturns⟩ := Option.map_eq_some_iff.1 hrun
  obtain ⟨hturns, hsize⟩ := Prod.mk.inj hturns
  have hreaches : Reaches (GroupCalls.step 1) Alone {} s := .of_guarded hs
  have hbalance := (turns_bounded 1).1 s (hreaches.weaken fun _ _ _ => trivial) 0 (by rw [hsize]; decide)
  obtain ⟨hnodup, hback⟩ := (turns_bounded 1).2 s hreaches
  exact ⟨s, hturns, hbalance, hnodup, hback⟩

/-- Two calls read the count before one of them writes it. Both put the group back. -/
example : (run (GroupCalls.step 1) {} (takesOne ++ [.setUrlGroupState 0 .error, .setUrlGroupState 0 .error] ++
    List.replicate 3 (.update 0 false false) ++ List.replicate 9 (.update 1 false false) ++
      List.replicate 6 (.update 0 false false))).map
      (fun s => (s.putBack, s.takes.urlGroupQueue)) = some ([0, 0], [0, 0]) := by decide +kernel

end GroupCalls

end CaptureHPC
