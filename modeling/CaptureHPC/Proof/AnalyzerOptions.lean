import CaptureHPC.Spec.AnalyzerOptions

/-!
# When the capture flag follows the options

* `addOption_flag`: a change can only set the flag.
* `step_iff`: so it follows the options exactly if the last option that is `true` is not turned off.
* `flag_follows_iff`: the same for a whole history of changes.
* `dumper_follows`: there is a dumper exactly while the flag is set, and it is never deleted.
-/

namespace CaptureHPC.Analyzer

open Cpp

variable {s : Analyzer} {option other value : WString} {options : List (WString × WString)} {c : OptionChange}

def networkOptions : List WString := [maliciousOption, benignOption, captureOption]

/-- Some network option is `true`. -/
def Enabled (s : Analyzer) : Prop := ∃ option ∈ networkOptions, s.getOption option = isTrue

/-- The flag is set exactly if some network option is `true`. -/
def Follows (s : Analyzer) : Prop := s.captureNetworkPackets = true ↔ s.Enabled

/-- The only network option that is `true` gets another value. -/
def TurnsLastOff (s : Analyzer) (c : OptionChange) : Prop :=
  ∃ option value, entryOf c = some (option, value) ∧ option ∈ networkOptions ∧ s.getOption option = isTrue ∧
    value ≠ isTrue ∧ ∀ other ∈ networkOptions, other ≠ option → s.getOption other ≠ isTrue

theorem mem_networkOptions :
    option ∈ networkOptions ↔ option = maliciousOption ∨ option = benignOption ∨ option = captureOption := by
  simp [networkOptions]

/-! ## One notification -/

/-- There is no dumper without the flag, and none that is deleted. -/
structure DumperSafe (s : Analyzer) : Prop where
  null : s.captureNetworkPackets = false → s.networkPacketDumper = .null
  not_dangling : s.networkPacketDumper ≠ .dangling

/-- Some network option is now `true`. -/
theorem onOptionChanged_true (h : option ∈ networkOptions) (htrue : s.getOption option = isTrue) :
    s.onOptionChanged option = { s with
      networkPacketDumper := if s.networkPacketDumper = .null then .object else s.networkPacketDumper
      captureNetworkPackets := true } := by
  unfold onOptionChanged
  simp only
  rw [if_pos (mem_networkOptions.1 h), networkOptionChanged, if_pos htrue]

/-- Otherwise the flag stays, and so does the dumper. -/
theorem onOptionChanged_other (h : ¬(option ∈ networkOptions ∧ s.getOption option = isTrue)) :
    (s.onOptionChanged option).optionsMap = s.optionsMap ∧
      (s.onOptionChanged option).captureNetworkPackets = s.captureNetworkPackets ∧
      (s.DumperSafe → (s.onOptionChanged option).networkPacketDumper = s.networkPacketDumper) := by
  unfold onOptionChanged
  simp only
  by_cases hnetwork : option = maliciousOption ∨ option = benignOption ∨ option = captureOption
  · rw [if_pos hnetwork, networkOptionChanged, if_neg fun htrue => h ⟨mem_networkOptions.2 hnetwork, htrue⟩]
    by_cases hreset : s.captureNetworkPackets = false ∧ s.getOption maliciousOption ≠ isTrue ∧
        s.getOption benignOption ≠ isTrue
    · -- the flag is reset where it is not set, and there is no dumper to delete
      rw [if_pos hreset]
      refine ⟨rfl, hreset.1.symm, fun hdumper => ?_⟩
      show (if s.networkPacketDumper = .null then DumperPointer.null else .dangling) = _
      rw [if_pos (hdumper.null hreset.1), hdumper.null hreset.1]
    · rw [if_neg hreset]
      exact ⟨rfl, rfl, fun _ => rfl⟩
  · rw [if_neg hnetwork]
    by_cases hcollect : option = lit "collect-modified-files"
    · rw [if_pos hcollect]
      exact ⟨rfl, rfl, fun _ => rfl⟩
    · rw [if_neg hcollect]
      split_ifs
      · exact ⟨rfl, rfl, fun _ => rfl⟩
      · exact ⟨rfl, rfl, fun _ => rfl⟩
      · exact ⟨rfl, rfl, fun _ => rfl⟩

theorem onOptionChanged_optionsMap (option : WString) (s : Analyzer) :
    (s.onOptionChanged option).optionsMap = s.optionsMap := by
  by_cases h : option ∈ networkOptions ∧ s.getOption option = isTrue
  · rw [onOptionChanged_true h.1 h.2]
  · exact (onOptionChanged_other h).1

/-- **A notification can only set the flag.** -/
theorem onOptionChanged_flag (option : WString) (s : Analyzer) :
    (s.onOptionChanged option).captureNetworkPackets = true ↔
      s.captureNetworkPackets = true ∨ option ∈ networkOptions ∧ s.getOption option = isTrue := by
  by_cases h : option ∈ networkOptions ∧ s.getOption option = isTrue
  · rw [onOptionChanged_true h.1 h.2]
    exact iff_of_true rfl (.inr h)
  · rw [(onOptionChanged_other h).2.1]
    exact (or_iff_left h).symm

/-- **A notification makes a dumper where it sets the flag**, and deletes none. -/
theorem DumperSafe.onOptionChanged (h : s.DumperSafe) (option : WString) :
    (s.onOptionChanged option).DumperSafe ∧
      ((s.onOptionChanged option).networkPacketDumper = .object ↔
        s.networkPacketDumper = .object ∨ option ∈ networkOptions ∧ s.getOption option = isTrue) := by
  by_cases htrue : option ∈ networkOptions ∧ s.getOption option = isTrue
  · have hobject : (s.onOptionChanged option).networkPacketDumper = .object := by
      rw [onOptionChanged_true htrue.1 htrue.2]
      cases hdumper : s.networkPacketDumper with
      | null => rfl
      | object => rfl
      | dangling => exact absurd hdumper h.not_dangling
    have hflag := (onOptionChanged_flag option s).2 (.inr htrue)
    refine ⟨⟨fun hunset => ?_, by rw [hobject]; decide⟩, iff_of_true hobject (.inr htrue)⟩
    rw [hflag] at hunset
    cases hunset
  · obtain ⟨-, hflag, hdumper⟩ := onOptionChanged_other htrue
    rw [hdumper h]
    refine ⟨⟨fun hunset => ?_, by rw [hdumper h]; exact h.not_dangling⟩, (or_iff_left htrue).symm⟩
    rw [hdumper h]
    exact h.null (hflag ▸ hunset)

/-! ## One change -/

theorem getOption_setOption (option value other : WString) (s : Analyzer) :
    (s.setOption option value).getOption other = if other = option then value else s.getOption other := by
  unfold getOption setOption
  by_cases h : other = option
  · subst h
    simp
  · simp [h]

theorem enabled_congr {t : Analyzer} (h : t.optionsMap = s.optionsMap) : t.Enabled ↔ s.Enabled := by
  unfold Enabled getOption
  rw [h]

theorem addOption_flag (option value : WString) (s : Analyzer) :
    (s.addOption option value).captureNetworkPackets = true ↔
      s.captureNetworkPackets = true ∨ option ∈ networkOptions ∧ value = isTrue := by
  rw [addOption, onOptionChanged_flag, getOption_setOption, if_pos rfl]
  rfl

theorem addOption_enabled (option value : WString) (s : Analyzer) :
    (s.addOption option value).Enabled ↔ (option ∈ networkOptions ∧ value = isTrue) ∨
      ∃ other ∈ networkOptions, other ≠ option ∧ s.getOption other = isTrue := by
  rw [addOption, enabled_congr (onOptionChanged_optionsMap option _)]
  unfold Enabled
  simp only [getOption_setOption]
  constructor
  · rintro ⟨other, hmem, htrue⟩
    by_cases h : other = option
    · subst h
      rw [if_pos rfl] at htrue
      exact .inl ⟨hmem, htrue⟩
    · rw [if_neg h] at htrue
      exact .inr ⟨other, hmem, h, htrue⟩
  · rintro (⟨hmem, htrue⟩ | ⟨other, hmem, hne, htrue⟩)
    · exact ⟨option, hmem, by rw [if_pos rfl]; exact htrue⟩
    · exact ⟨other, hmem, by rw [if_neg hne]; exact htrue⟩

/-- To turn the last one off is to leave none. -/
theorem turnsLastOff_iff (h : entryOf c = some (option, value)) :
    s.TurnsLastOff c ↔ s.Enabled ∧ ¬(s.addOption option value).Enabled := by
  rw [addOption_enabled]
  unfold TurnsLastOff Enabled
  constructor
  · rintro ⟨option', value', hentry, hmem, htrue, hvalue, hothers⟩
    rw [h, Option.some.injEq, Prod.mk.injEq] at hentry
    obtain ⟨rfl, rfl⟩ := hentry
    refine ⟨⟨option, hmem, htrue⟩, ?_⟩
    rintro (⟨-, hnew⟩ | ⟨other, hother, hne, hnew⟩)
    · exact hvalue hnew
    · exact hothers other hother hne hnew
  · rintro ⟨⟨last, hmem, htrue⟩, hnone⟩
    rw [not_or] at hnone
    -- the one that was `true` is the one that is changed
    have hlast : last = option := by
      by_contra hne
      exact hnone.2 ⟨last, hmem, hne, htrue⟩
    subst hlast
    refine ⟨last, value, h, hmem, htrue, fun hvalue => hnone.1 ⟨hmem, hvalue⟩, ?_⟩
    intro other hother hne hnew
    exact hnone.2 ⟨other, hother, hne, hnew⟩

/-- **One change**: the flag goes on following the options exactly if the last one is not turned off. -/
theorem step_iff (h : s.Follows) (c : OptionChange) : (s.change c).Follows ↔ ¬s.TurnsLastOff c := by
  unfold change
  match hentry : entryOf c with
  | none =>
    refine iff_of_true h ?_
    rintro ⟨option, value, hsome, -⟩
    rw [hentry] at hsome
    cases hsome
  | some (option, value) =>
    rw [turnsLastOff_iff hentry]
    show Follows (s.addOption option value) ↔ _
    unfold Follows at h ⊢
    rw [addOption_flag, h, not_and, not_not]
    have hnew : option ∈ networkOptions ∧ value = isTrue → (s.addOption option value).Enabled :=
      fun hset => (addOption_enabled option value s).2 (.inl hset)
    constructor
    · intro hiff henabled
      exact hiff.1 (.inl henabled)
    · intro hkept
      refine ⟨fun hset => hset.elim hkept hnew, fun hnow => ?_⟩
      rcases (addOption_enabled option value s).1 hnow with hset | ⟨other, hmem, -, htrue⟩
      · exact .inr hset
      · exact .inl ⟨other, hmem, htrue⟩

/-! ## Histories -/

/-- The analyzer after some changes. -/
def after (options : List (WString × WString)) (changes : List OptionChange) : Analyzer :=
  changes.foldl change (create options)

theorem after_concat (options : List (WString × WString)) (before : List OptionChange) (c : OptionChange) :
    after options (before ++ [c]) = (after options before).change c := by
  unfold after
  rw [List.foldl_append]
  rfl

/-- The options that are signalled when the analyzer connects. -/
theorem foldl_onOptionChanged (options : List (WString × WString)) (s : Analyzer) :
    (options.foldl (fun s entry => s.onOptionChanged entry.1) s).optionsMap = s.optionsMap ∧
      ((options.foldl (fun s entry => s.onOptionChanged entry.1) s).captureNetworkPackets = true ↔
        s.captureNetworkPackets = true ∨
          ∃ entry ∈ options, entry.1 ∈ networkOptions ∧ s.getOption entry.1 = isTrue) ∧
      (s.DumperSafe →
        (options.foldl (fun s entry => s.onOptionChanged entry.1) s).DumperSafe ∧
          ((options.foldl (fun s entry => s.onOptionChanged entry.1) s).networkPacketDumper = .object ↔
            s.networkPacketDumper = .object ∨
              ∃ entry ∈ options, entry.1 ∈ networkOptions ∧ s.getOption entry.1 = isTrue)) := by
  induction options generalizing s with
  | nil => simp
  | cons entry options ih =>
    obtain ⟨hmap, hflag, hdumper⟩ := ih (s.onOptionChanged entry.1)
    have hsame := onOptionChanged_optionsMap entry.1 s
    have hget : ∀ option, (s.onOptionChanged entry.1).getOption option = s.getOption option := by
      intro option
      rw [getOption, hsame, getOption]
    simp only [hget] at hflag hdumper
    rw [List.foldl_cons]
    refine ⟨hmap.trans hsame, ?_, fun hsafe => ?_⟩
    · rw [hflag, onOptionChanged_flag, List.exists_mem_cons_iff, or_assoc]
    · obtain ⟨hnext, hobject⟩ := hsafe.onOptionChanged entry.1
      obtain ⟨hlast, hiff⟩ := hdumper hnext
      refine ⟨hlast, ?_⟩
      rw [hiff, hobject, List.exists_mem_cons_iff, or_assoc]

/-- What is found in the list of options stands in it. -/
theorem mem_of_lookup {value : WString} (h : options.lookup option = some value) : (option, value) ∈ options := by
  obtain ⟨l₁, l₂, hl, -⟩ := List.lookup_eq_some_iff.1 h
  rw [hl]
  exact List.mem_append_right _ List.mem_cons_self

theorem getOption_beforeConnect (options : List (WString × WString)) (option : WString) :
    (beforeConnect options).getOption option = (options.lookup option).getD [] := rfl

/-- An option that is `true` is in the list, and so it is signalled. -/
theorem signalled_iff (options : List (WString × WString)) :
    (∃ entry ∈ options, entry.1 ∈ networkOptions ∧ (beforeConnect options).getOption entry.1 = isTrue) ↔
      (beforeConnect options).Enabled := by
  constructor
  · rintro ⟨entry, -, hmem, htrue⟩
    exact ⟨entry.1, hmem, htrue⟩
  · rintro ⟨option, hmem, htrue⟩
    have hget := htrue
    rw [getOption_beforeConnect] at hget
    cases hlookup : options.lookup option with
    | none =>
      rw [hlookup, Option.getD_none] at hget
      cases hget
    | some value => exact ⟨(option, value), mem_of_lookup hlookup, hmem, htrue⟩

/-- **At first** the flag follows the options that are there, and there is a dumper if it is set. -/
theorem create_follows (options : List (WString × WString)) :
    (create options).Follows ∧ (create options).DumperSafe ∧
      ((create options).networkPacketDumper = .object ↔ (create options).captureNetworkPackets = true) := by
  obtain ⟨hmap, hflag, hdumper⟩ := foldl_onOptionChanged options (beforeConnect options)
  have hnull : (beforeConnect options).networkPacketDumper = .null := rfl
  have hsafe : (beforeConnect options).DumperSafe := ⟨fun _ => hnull, by rw [hnull]; decide⟩
  obtain ⟨hlast, hobject⟩ := hdumper hsafe
  have hfirst : (beforeConnect options).captureNetworkPackets = true → (beforeConnect options).Enabled := by
    intro hset
    exact ⟨captureOption, by decide, of_decide_eq_true hset⟩
  rw [signalled_iff, or_iff_right_of_imp hfirst] at hflag
  rw [signalled_iff, hnull, or_iff_right (by decide)] at hobject
  unfold create
  refine ⟨?_, hlast, hobject.trans hflag.symm⟩
  rw [Follows, hflag, enabled_congr hmap]

/-- A history, with the changes that are still to come. -/
theorem follows_after (options : List (WString × WString)) (before : List OptionChange)
    (h : ∀ earlier c later, before = earlier ++ c :: later → ¬(after options earlier).TurnsLastOff c) :
    (after options before).Follows := by
  induction before using List.reverseRecOn with
  | nil => exact (create_follows options).1
  | append_singleton before c ih =>
    rw [after_concat, step_iff (ih fun earlier d later heq => h earlier d (later ++ [c]) (by simp [heq]))]
    exact h before c [] rfl

/-- **The flag follows the options exactly if the last option that is `true` is never turned off.** The states are
those after each change. -/
theorem flag_follows_iff (options : List (WString × WString)) (changes : List OptionChange) :
    (∀ before later, changes = before ++ later → (after options before).Follows) ↔
      ∀ before c later, changes = before ++ c :: later → ¬(after options before).TurnsLastOff c := by
  constructor
  · intro h before c later heq
    have hnow := h before (c :: later) heq
    have hnext := h (before ++ [c]) later (by rw [heq, List.append_cons])
    rw [after_concat] at hnext
    exact (step_iff hnow c).1 hnext
  · intro h before later heq
    refine follows_after options before fun earlier c rest hbefore => ?_
    exact h earlier c (rest ++ later) (by rw [heq, hbefore, List.append_assoc, List.cons_append])

/-- **There is a dumper exactly while the flag is set**, and it is never deleted. -/
theorem dumper_follows (options : List (WString × WString)) (changes : List OptionChange) :
    (after options changes).DumperSafe ∧
      ((after options changes).networkPacketDumper = .object ↔
        (after options changes).captureNetworkPackets = true) := by
  induction changes using List.reverseRecOn with
  | nil => exact (create_follows options).2
  | append_singleton before c ih =>
    obtain ⟨hsafe, hobject⟩ := ih
    rw [after_concat, change]
    match entryOf c with
    | none => exact ⟨hsafe, hobject⟩
    | some (option, value) =>
      have hset : ((after options before).setOption option value).DumperSafe := ⟨hsafe.null, hsafe.not_dangling⟩
      obtain ⟨hnext, hiff⟩ := hset.onOptionChanged option
      refine ⟨hnext, hiff.trans ?_⟩
      have hflag := onOptionChanged_flag option ((after options before).setOption option value)
      exact (or_congr_left hobject).trans hflag.symm

/-- The capture is switched on, and off again. -/
def onAndOff : List OptionChange := [.addOption captureOption isTrue, .addOption captureOption (lit "false")]

/-- The flag stays set. -/
theorem onAndOff_stays : ¬∀ before later, onAndOff = before ++ later → (after [] before).Follows := by
  intro h
  have hflag : (after [] onAndOff).captureNetworkPackets = true := by decide
  obtain ⟨option, hmem, htrue⟩ := (h onAndOff [] rfl).1 hflag
  have hall : ∀ option ∈ networkOptions, (after [] onAndOff).getOption option ≠ isTrue := by decide
  exact hall option hmem htrue

end CaptureHPC.Analyzer
