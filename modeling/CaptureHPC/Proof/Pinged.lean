import CaptureHPC.Spec.ClientsPinger

/-!
# Whom the pinger pings

A run takes the additions before the removals, and an addition does not replace the client
that the machine has already (`get_clients_run`). So the pinged clients are the connected ones
as long as no machine is disconnected and connected again between two runs (`pinged_iff`).
-/

namespace CaptureHPC

open Lib

namespace ClientsPinger

variable {vmUniqueId : ℕ → String} {vm : String} {c : ℕ} {s : ClientsPinger vmUniqueId}
  {steps old batch : List PingerStep}

open PingerStep

theorem after_append (p q : List PingerStep) : after vmUniqueId (p ++ q) = q.foldl step (after vmUniqueId p) :=
  List.foldl_append

/-- Every client in the set is pinged: no state is both of the two that are tested. -/
theorem pinged_run (clientState : ℕ → ClientState) : (s.run clientState).pinged = (s.run clientState).clients.elems := by
  refine List.filter_eq_self.2 fun c _ => decide_eq_true ?_
  by_cases h : clientState c = .connecting
  · exact .inr (by rw [h]; decide)
  · exact .inl h

section notifications

variable (client : ℕ) (clientState : ClientState)

theorem clients_update : (s.update client clientState).clients = s.clients := by
  unfold update
  split_ifs <;> rfl

theorem get_toAdd_update : (s.update client clientState).toAdd.get vm =
    (s.toAdd.get vm).or ((PingerStep.update client clientState).connects vmUniqueId vm) := by
  unfold update
  cases clientState <;> simp [connects]

theorem get_toRemove_update : ((s.update client clientState).toRemove.get vm).isSome =
    ((s.toRemove.get vm).isSome || (PingerStep.update client clientState).disconnects vmUniqueId vm) := by
  unfold update
  cases clientState <;> simp [disconnects]
  split_ifs with hvm <;> simp [hvm]

end notifications

/-- What a batch of notifications adds to the pinger. -/
theorem batch_step (vm : String) (hbatch : ∀ e ∈ batch, e.isRun = false) (s : ClientsPinger vmUniqueId) :
    (batch.foldl step s).clients = s.clients ∧
      (batch.foldl step s).toAdd.get vm = (s.toAdd.get vm).or (firstConnected vmUniqueId vm batch) ∧
      ((batch.foldl step s).toRemove.get vm).isSome =
        ((s.toRemove.get vm).isSome || batch.any (disconnects vmUniqueId vm)) := by
  induction batch generalizing s with
  | nil => exact ⟨rfl, (Option.or_none ..).symm, (Bool.or_false _).symm⟩
  | cons e batch ih =>
    cases e with
    | run _ => exact absurd (hbatch _ List.mem_cons_self) (by simp [isRun])
    | update client clientState =>
      obtain ⟨hclients, hadd, hremove⟩ := ih (fun e he => hbatch e (List.mem_cons_of_mem _ he))
        (s.update client clientState)
      rw [List.foldl_cons]
      refine ⟨hclients.trans (clients_update ..), hadd.trans ?_, hremove.trans ?_⟩
      · rw [get_toAdd_update, Option.or_assoc]
        congr 1
        rw [firstConnected, firstConnected, List.findSome?_cons]
        cases (PingerStep.update client clientState).connects vmUniqueId vm <;> rfl
      · rw [get_toRemove_update, Bool.or_assoc, List.any_cons]

/-- The pinger has just been started, or the timer has just run. -/
def Fresh (steps : List PingerStep) : Prop := steps = [] ∨ ∃ past states, steps = past ++ [.run states]

theorem Fresh.empty (vmUniqueId : ℕ → String) (h : Fresh old) :
    (after vmUniqueId old).toAdd = .empty ∧ (after vmUniqueId old).toRemove = .empty := by
  rcases h with rfl | ⟨past, states, rfl⟩
  · exact ⟨rfl, rfl⟩
  · rw [after_append]
    exact ⟨rfl, rfl⟩

/-- **A run.** A notified removal wins over what the set has, and that wins over a notified
addition. -/
theorem get_clients_run (hold : Fresh old) (hbatch : ∀ e ∈ batch, e.isRun = false) (states : ℕ → ClientState) :
    (after vmUniqueId (old ++ batch ++ [.run states])).clients.get vm =
      if batch.any (disconnects vmUniqueId vm) then none
      else ((after vmUniqueId old).clients.get vm).or (firstConnected vmUniqueId vm batch) := by
  obtain ⟨hadd, hremove⟩ := Fresh.empty vmUniqueId hold
  obtain ⟨hclients, hadd', hremove'⟩ := batch_step vm hbatch (after vmUniqueId old)
  rw [hadd, KeyedSet.get_empty, Option.none_or] at hadd'
  rw [hremove, KeyedSet.get_empty, Option.isSome_none, Bool.false_or] at hremove'
  rw [after_append, after_append, List.foldl_cons, List.foldl_nil]
  show ((KeyedSet.addAll _ _).removeAll _).get vm = _
  rw [KeyedSet.get_removeAll, KeyedSet.get_addAll, hclients, hadd', hremove']

section latest

theorem latest_append (p q : List PingerStep) :
    latest vmUniqueId vm (p ++ q) = q.foldl (learn vmUniqueId vm) (latest vmUniqueId vm p) := List.foldl_append

theorem latest_run (states : ℕ → ClientState) : latest vmUniqueId vm (old ++ [.run states]) = latest vmUniqueId vm old := by
  rw [latest_append]
  rfl

theorem id_of_connects {e : PingerStep} (h : e.connects vmUniqueId vm = some c) : vmUniqueId c = vm := by
  cases e with
  | run _ => exact nomatch h
  | update d clientState =>
    cases clientState <;> simp only [connects, reduceCtorEq] at h
    split_ifs at h with hvm
    exact Option.some.inj h ▸ hvm

theorem id_of_learn (known : Option ℕ) (hknown : ∀ c, known = some c → vmUniqueId c = vm)
    (h : steps.foldl (learn vmUniqueId vm) known = some c) : vmUniqueId c = vm := by
  induction steps generalizing known with
  | nil => exact hknown c h
  | cons e steps ih =>
    refine ih (learn vmUniqueId vm known e) (fun d hd => ?_) h
    unfold learn at hd
    split_ifs at hd
    rcases Option.or_eq_some_iff.1 hd with hd | ⟨-, hd⟩
    · exact id_of_connects hd
    · exact hknown d hd

theorem id_of_latest (h : latest vmUniqueId vm steps = some c) : vmUniqueId c = vm :=
  id_of_learn none (fun _ h => nomatch h) h

/-- Without a disconnection a machine of which a client was known or connects has a client. -/
theorem learn_eq_none (known : Option ℕ) (h : batch.foldl (learn vmUniqueId vm) known = none)
    (hbatch : batch.any (disconnects vmUniqueId vm) = false) :
    known = none ∧ firstConnected vmUniqueId vm batch = none := by
  induction batch generalizing known with
  | nil => exact ⟨h, rfl⟩
  | cons e batch ih =>
    rw [List.any_cons, Bool.or_eq_false_iff] at hbatch
    obtain ⟨hlearn, hfirst⟩ := ih (learn vmUniqueId vm known e) h hbatch.2
    rw [learn, hbatch.1, if_neg Bool.false_ne_true, Option.or_eq_none_iff] at hlearn
    refine ⟨hlearn.2, ?_⟩
    rw [firstConnected, List.findSome?_cons, hlearn.1]
    exact hfirst

end latest

/-- Right after the run that ends these steps: the pinged clients are those of the machines whose
latest notification was CONNECTED. -/
def PingsConnected (vmUniqueId : ℕ → String) (steps : List PingerStep) : Prop :=
  ∀ c, c ∈ (after vmUniqueId steps).pinged ↔ latest vmUniqueId (vmUniqueId c) steps = some c

theorem pingsConnected_iff (hrun : ∃ past states, steps = past ++ [.run states]) :
    PingsConnected vmUniqueId steps ↔
      ∀ vm, (after vmUniqueId steps).clients.get vm = latest vmUniqueId vm steps := by
  have hpinged : (after vmUniqueId steps).pinged = (after vmUniqueId steps).clients.elems := by
    obtain ⟨past, states, rfl⟩ := hrun
    rw [after_append]
    exact pinged_run states
  unfold PingsConnected
  constructor
  · intro h vm
    refine Option.ext fun c => ?_
    have hc := h c
    rw [hpinged, KeyedSet.mem_iff] at hc
    constructor
    · intro hget
      have hid := KeyedSet.key_of_get hget
      rw [hid] at hc
      exact hc.1 hget
    · intro hlatest
      rw [id_of_latest hlatest] at hc
      exact hc.2 hlatest
  · intro h c
    rw [hpinged, KeyedSet.mem_iff, h]

/-- A run follows `old` and `batch`, and `batch` has been notified since the run before it. -/
structure RunsAfter (steps old batch : List PingerStep) : Prop where
  prefix_steps : ∃ states, old ++ batch ++ [.run states] <+: steps
  fresh : Fresh old
  batch : ∀ e ∈ batch, e.isRun = false

/-- Before each run, for each machine whose latest notification is CONNECTED: it has not been
disconnected since the run before, and its client is the one it had then, or else the first
that connected since then. -/
def Settled (vmUniqueId : ℕ → String) (steps : List PingerStep) : Prop :=
  ∀ old batch, RunsAfter steps old batch → ∀ vm c, latest vmUniqueId vm (old ++ batch) = some c →
    batch.any (disconnects vmUniqueId vm) = false ∧
      (latest vmUniqueId vm old).or (firstConnected vmUniqueId vm batch) = some c

/-- What has been notified since the latest run. -/
theorem exists_batch (steps : List PingerStep) :
    ∃ old batch, steps = old ++ batch ∧ Fresh old ∧ ∀ e ∈ batch, e.isRun = false := by
  induction steps using List.reverseRecOn with
  | nil => exact ⟨[], [], rfl, .inl rfl, by simp⟩
  | append_singleton steps e ih =>
    cases e with
    | run states => exact ⟨steps ++ [.run states], [], by simp, .inr ⟨steps, states, rfl⟩, by simp⟩
    | update c clientState =>
      obtain ⟨old, batch, rfl, hold, hbatch⟩ := ih
      refine ⟨old, batch ++ [.update c clientState], by simp, hold, fun e he => ?_⟩
      rcases List.mem_append.1 he with he | he
      · exact hbatch e he
      · rw [List.mem_singleton.1 he]
        rfl

/-- When the set was right after the run before, it is right after this one exactly if the machines
that are connected meet the condition. -/
theorem run_iff (hold : Fresh old) (hbatch : ∀ e ∈ batch, e.isRun = false) (states : ℕ → ClientState)
    (hclients : ∀ vm, (after vmUniqueId old).clients.get vm = latest vmUniqueId vm old) :
    PingsConnected vmUniqueId (old ++ batch ++ [.run states]) ↔
      ∀ vm c, latest vmUniqueId vm (old ++ batch) = some c →
        batch.any (disconnects vmUniqueId vm) = false ∧
          (latest vmUniqueId vm old).or (firstConnected vmUniqueId vm batch) = some c := by
  rw [pingsConnected_iff ⟨_, states, rfl⟩]
  refine forall_congr' fun vm => ?_
  rw [get_clients_run hold hbatch, latest_run, hclients]
  constructor
  · intro h c hc
    rw [hc] at h
    split_ifs at h with hdis
    exact ⟨by simpa using hdis, h⟩
  · intro h
    cases hlatest : latest vmUniqueId vm (old ++ batch) with
    | some c =>
      obtain ⟨hdis, hc⟩ := h c hlatest
      rw [hdis, hc, if_neg Bool.false_ne_true]
    | none =>
      split_ifs with hdis
      · rfl
      · rw [latest_append] at hlatest
        obtain ⟨hold', hfirst⟩ := learn_eq_none _ hlatest (by simpa using hdis)
        rw [hold', hfirst]
        rfl

/-- **The pinged clients are the connected ones**, after every run, exactly if before each run the
machines that are connected meet the condition. -/
theorem pinged_iff (vmUniqueId : ℕ → String) (steps : List PingerStep) :
    (∀ past states, past ++ [.run states] <+: steps → PingsConnected vmUniqueId (past ++ [.run states])) ↔
      Settled vmUniqueId steps := by
  constructor
  · rintro h old batch ⟨⟨states, hpre⟩, hold, hbatch⟩
    refine (run_iff hold hbatch states ?_).1 (h _ states hpre)
    rcases hold with rfl | ⟨past, states', rfl⟩
    · exact fun vm => rfl
    · refine (pingsConnected_iff ⟨past, states', rfl⟩).1 (h past states' ?_)
      rw [List.append_assoc] at hpre
      exact (List.prefix_append ..).trans hpre
  · intro h past
    -- the steps up to the run before are shorter
    induction hn : past.length using Nat.strong_induction_on generalizing past with
    | _ n ih =>
      intro states hpre
      obtain ⟨old, batch, rfl, hold, hbatch⟩ := exists_batch past
      refine (run_iff hold hbatch states ?_).2 (h old batch ⟨⟨states, hpre⟩, hold, hbatch⟩)
      rcases hold with rfl | ⟨past, states', rfl⟩
      · exact fun vm => rfl
      · refine (pingsConnected_iff ⟨past, states', rfl⟩).1 (ih past.length ?_ past rfl states' ?_)
        · rw [List.length_append, List.length_append, List.length_singleton] at hn
          omega
        · rw [List.append_assoc] at hpre
          exact (List.prefix_append ..).trans hpre

/-- The client of a machine is replaced between two runs. -/
def replaced : List PingerStep :=
  [.update 1 .connected, .run fun _ => .waiting, .update 1 .disconnected, .update 2 .connected,
    .run fun _ => .waiting]

/-- The machine's new client is not pinged. -/
theorem replaced_not_pinged : ∃ past states, past ++ [.run states] <+: replaced ∧
    ¬ PingsConnected (fun _ => "1") (past ++ [.run states]) := by
  refine ⟨replaced.take 4, fun _ => .waiting, List.prefix_rfl, fun h => ?_⟩
  exact absurd ((h 2).2 rfl) (by decide)

end ClientsPinger

end CaptureHPC
