import CaptureHPC.Proof.ProcessPaths

/-!
# Which process a pid is taken for

* `getProcessPathIn_answers`: a lookup returns, what it knew it still knows, and it gives the path that was cached, or
  else that of the image.
* `onProcessEvent_keeps`: an event leaves the path that the process had when it was looked up.
* `processMap_follows`: a pid that is used again is taken for the new process only if the old one was not known.
-/

namespace CaptureHPC

open Lib Cpp

/-- The path of an image that has a DOS form. -/
def IsImage (w : Windows) (path : WString) : Prop :=
  path.head? = some backslash ∧ (path.length ≤ 23 ∨ path.count backslash ≠ 2 ∧ w.LongFormFits path)

/-- What the system says of processes, each with an image that has a DOS form. -/
structure Images (w : Windows) where
  system : System
  isImage : ∀ e ∈ system.images, IsImage w e.2

/-- The process `processId` is created, with the image `image`, and can be opened or not. -/
structure CreatedProcess (w : Windows) where
  processId : UInt32
  parentProcessId : UInt32
  image : WString
  isImage : IsImage w image
  images : Images w
  opened : images.system.image processId = none ∨ images.system.image processId = some image

inductive ProcessStep (w : Windows)
  | created (e : CreatedProcess w)
  | terminated (processId parentProcessId : UInt32) (images : Images w)
  /-- A monitor asks for the path of a process. -/
  | lookup (processId : UInt32) (images : Images w)

namespace ProcessManager

variable {w : Windows} {szTemp path d : WString} {system : System} {m m' m'' : ProcessMap} {p q parent : UInt32} {fuel : ℕ}

/-- What is done with the map. -/
def handle (w : Windows) (szTemp : WString) (m : ProcessMap) : ProcessStep w → Option ProcessMap
  | .created e => (ProcessMonitor.onProcessEvent w szTemp (getProcessPath w szTemp e.images.system) true e.processId
      e.parentProcessId m).map Prod.fst
  | .terminated processId parentProcessId images => (ProcessMonitor.onProcessEvent w szTemp
      (getProcessPath w szTemp images.system) false processId parentProcessId m).map Prod.fst
  | .lookup processId images => (getProcessPath w szTemp images.system m processId).map Prod.snd

/-! ## DOS forms -/

/-- A path that the conversion leaves as it is. -/
def Stable (w : Windows) (szTemp path : WString) : Prop := convertFileObjectPathToDOSPath w szTemp path = some path

theorem stable_of_head (w : Windows) (szTemp : WString) (h : path.head? ≠ some backslash) : Stable w szTemp path :=
  convert_short w szTemp (.inl h)

/-- **The DOS form of an image** is stable, and is not one of the paths of processes that are not known. -/
theorem dosForm (hkeeps : w.KeepsDrive) (szTemp : WString) (h : IsImage w path) :
    ∃ d, convertFileObjectPathToDOSPath w szTemp path = some d ∧ Stable w szTemp d ∧ d ≠ lit "UNKNOWN" ∧
      d ≠ lit "System" := by
  obtain ⟨hhead, hform⟩ := h
  by_cases hshort : path.length ≤ 23
  · refine ⟨path, convert_short w szTemp (.inr hshort), convert_short w szTemp (.inr hshort), ?_, ?_⟩
    · rintro rfl
      revert hhead
      decide
    · rintro rfl
      revert hhead
      decide
  · obtain ⟨hcount, hfits⟩ := hform.resolve_left hshort
    rcases split_or_two hhead with ⟨device, rest, hsplit, -⟩ | ⟨-, -, -, -, -, htwo⟩
    · obtain ⟨letter, rest', hne, hpath⟩ := convert_drive hkeeps szTemp hsplit (not_le.1 hshort) hfits
      have hsecond : ∀ t : WString, t[1]? ≠ some colon → letter :: colon :: rest' ≠ t := by
        rintro t ht rfl
        exact ht rfl
      refine ⟨_, hpath, stable_of_head w szTemp ?_, hsecond _ (by decide), hsecond _ (by decide)⟩
      rw [List.head?_cons, ne_eq, Option.some_inj]
      exact hne
    · exact absurd htwo hcount

theorem stable_unknown (w : Windows) (szTemp : WString) : Stable w szTemp (lit "UNKNOWN") :=
  stable_of_head w szTemp (by decide)

theorem stable_system (w : Windows) (szTemp : WString) : Stable w szTemp (lit "System") :=
  stable_of_head w szTemp (by decide)

theorem insertProcess_stable (m : ProcessMap) (p : UInt32) (h : Stable w szTemp path) :
    insertProcess w szTemp m p path = some (Function.update m p (some path)) := by
  rw [insertProcess, h]
  rfl

theorem image_mem (h : system.image p = some path) : (p, path) ∈ system.images := by
  obtain ⟨before, after, hsplit, -⟩ := List.lookup_eq_some_iff.1 h
  rw [hsplit]
  exact List.mem_append_right _ List.mem_cons_self

/-! ## The map -/

/-- The paths of the map are stable. -/
def Cached (w : Windows) (szTemp : WString) (m : ProcessMap) : Prop := ∀ q d, m q = some d → Stable w szTemp d

/-- What is known stays known, and but for the system process as it was. -/
structure Extends (m m' : ProcessMap) : Prop where
  isSome : ∀ q, (m q).isSome = true → (m' q).isSome = true
  same : ∀ q, q ≠ 4 → ∀ d, m q = some d → m' q = some d

theorem Extends.refl (m : ProcessMap) : Extends m m := ⟨fun _ h => h, fun _ _ _ h => h⟩

theorem Extends.trans (h : Extends m m') (h' : Extends m' m'') : Extends m m'' where
  isSome q hq := h'.isSome q (h.isSome q hq)
  same q hne d hd := h'.same q hne d (h.same q hne d hd)

theorem Cached.update (h : Cached w szTemp m) (hd : Stable w szTemp d) (p : UInt32) :
    Cached w szTemp (Function.update m p (some d)) := by
  intro q e he
  by_cases hq : q = p
  · subst hq
    rw [Function.update_self] at he
    exact Option.some.inj he ▸ hd
  · rw [Function.update_of_ne hq] at he
    exact h q e he

/-- A path is put in for one that is not there, or is the same. -/
theorem Extends.update (h : Extends m m') (hp : p ≠ 4 → ∀ e, m p = some e → d = e) :
    Extends m (Function.update m' p (some d)) where
  isSome q hq := by
    by_cases hqp : q = p
    · subst hqp
      rw [Function.update_self]
      rfl
    · rw [Function.update_of_ne hqp]
      exact h.isSome q hq
  same q hne e he := by
    by_cases hqp : q = p
    · subst hqp
      rw [Function.update_self, hp hne e he]
    · rw [Function.update_of_ne hqp]
      exact h.same q hne e he

/-- How many of the processes that can be opened are not known. -/
def absent (system : System) (m : ProcessMap) : ℕ := (system.images.filter fun e => (m e.1).isNone).length

theorem absent_le (system : System) (h : Extends m m') : absent system m' ≤ absent system m := by
  refine (List.monotone_filter_right system.images fun e he => ?_).length_le
  rw [Option.isNone_iff_eq_none] at he ⊢
  by_contra hsome
  have := h.isSome e.1 (Option.isSome_iff_ne_none.2 hsome)
  rw [he] at this
  cases this

theorem absent_lt (hp : m p = none) (himage : system.image p = some path) :
    absent system (Function.update m p (some d)) < absent system m := by
  have hmem := image_mem himage
  have hsub : (system.images.filter fun e => (Function.update m p (some d) e.1).isNone) =
      (system.images.filter fun e => (m e.1).isNone).filter fun e => e.1 ≠ p := by
    rw [List.filter_filter]
    refine List.filter_congr fun e _ => ?_
    by_cases he : e.1 = p
    · simp [he]
    · simp [he]
  rw [absent, absent, hsub, List.length_filter_lt_length_iff_exists]
  exact ⟨(p, path), List.mem_filter.2 ⟨hmem, by simp [hp]⟩, by simp⟩

/-! ## Lookups and events -/

/-- What a lookup gives, and the map behind it. -/
structure Answers (w : Windows) (szTemp : WString) (system : System) (m : ProcessMap) (p : UInt32) (path : WString)
    (m' : ProcessMap) : Prop where
  cached : Cached w szTemp m'
  extend : Extends m m'
  stable : Stable w szTemp path
  four : p = 4 → path = lit "System"
  found : p ≠ 4 → ∀ d, m p = some d → path = d
  opened : p ≠ 4 → m p = none → ∀ image, system.image p = some image →
    convertFileObjectPathToDOSPath w szTemp image = some path
  closed : p ≠ 4 → m p = none → system.image p = none → path = lit "UNKNOWN"

/-- **An event leaves the path that its process had when it was looked up**, and what was known before. -/
theorem onProcessEvent_keeps {getProcessPath : ProcessMap → UInt32 → Option (WString × ProcessMap)}
    (hm : Cached w szTemp m) (hlookup : ∀ m', Cached w szTemp m' → Extends m m' → ∀ q, ∃ path m'',
      getProcessPath m' q = some (path, m'') ∧ Answers w szTemp system m' q path m'') (create : Bool) (p parent : UInt32) :
    ∃ path m₁ m' paths, getProcessPath m p = some (path, m₁) ∧ Answers w szTemp system m p path m₁ ∧
      ProcessMonitor.onProcessEvent w szTemp getProcessPath create p parent m = some (m', paths) ∧
      Cached w szTemp m' ∧ Extends m m' ∧ (create = true → p ≠ 4 → m' p = some path) := by
  obtain ⟨path, m₁, hget, hanswer⟩ := hlookup m hm (.refl m) p
  -- the map behind the event of the process manager
  obtain ⟨m₂, hevent, hcached, hextend, hpath⟩ : ∃ m₂, onProcessEvent w szTemp create p path m₁ = some m₂ ∧
      Cached w szTemp m₂ ∧ Extends m m₂ ∧ (create = true → m₂ p = some path) := by
    cases create with
    | false => exact ⟨m₁, rfl, hanswer.cached, hanswer.extend, fun h => by cases h⟩
    | true =>
      refine ⟨Function.update m₁ p (some path), ?_, hanswer.cached.update hanswer.stable p,
        hanswer.extend.update hanswer.found, fun _ => Function.update_self ..⟩
      have hinsert := insertProcess_stable m₁ p hanswer.stable
      rw [onProcessEvent, if_pos rfl, hanswer.stable]
      exact hinsert
  obtain ⟨path₃, m₃, hget₃, hanswer₃⟩ := hlookup m₂ hcached hextend p
  obtain ⟨path₄, m₄, hget₄, hanswer₄⟩ := hlookup m₃ hanswer₃.cached (hextend.trans hanswer₃.extend) parent
  have hextend₄ := hanswer₃.extend.trans hanswer₄.extend
  obtain ⟨path₅, m₅, hget₅, hanswer₅⟩ := hlookup m₄ hanswer₄.cached (hextend.trans hextend₄) parent
  have hextend₅ := hextend₄.trans hanswer₅.extend
  refine ⟨path, m₁, m₅, (path, path₅), hget, hanswer, ?_, hanswer₅.cached, hextend.trans hextend₅, ?_⟩
  · rw [ProcessMonitor.onProcessEvent, hget]
    simp only [bind, Option.bind, hevent, hget₃, hget₄, hget₅]
  · intro hcreate hp
    exact hextend₅.same p hp path (hpath hcreate)

/-- **A lookup returns** when there is fuel for the processes that are not known. -/
theorem getProcessPathIn_answers (hkeeps : w.KeepsDrive) (hsystem : ∀ e ∈ system.images, IsImage w e.2)
    (hm : Cached w szTemp m) (hfuel : absent system m < fuel) (p : UInt32) :
    ∃ path m', getProcessPathIn w szTemp system fuel m p = some (path, m') ∧ Answers w szTemp system m p path m' := by
  induction fuel generalizing m p with
  | zero => cases hfuel
  | succ fuel ih =>
    rw [getProcessPathIn]
    by_cases hp : p = 4
    · rw [if_pos hp]
      exact ⟨_, m, rfl, hm, .refl m, stable_system w szTemp, fun _ => rfl, fun h => absurd hp h, fun h => absurd hp h,
        fun h => absurd hp h⟩
    · rw [if_neg hp]
      cases hmp : m p with
      | some d =>
        refine ⟨d, m, rfl, hm, .refl m, hm p d hmp, fun h => absurd h hp, fun _ e he => ?_, fun _ h => ?_, fun _ h => ?_⟩
        · rw [hmp] at he
          exact Option.some.inj he
        · rw [hmp] at h
          cases h
        · rw [hmp] at h
          cases h
      | none =>
        have hnot : ∀ d e, m p = some e → d = e := by
          intro d e he
          rw [hmp] at he
          cases he
        cases himage : system.image p with
        | none =>
          have hunknown := stable_unknown w szTemp
          refine ⟨lit "UNKNOWN", m, ?_, hm, .refl m, hunknown, fun h => absurd h hp, fun _ => hnot _, fun _ _ i hi => ?_,
            fun _ _ _ => rfl⟩
          · simp only [bind, Option.bind]
            rw [hunknown]
          · rw [himage] at hi
            cases hi
        | some image =>
          obtain ⟨d, hd, hstable, -, -⟩ := dosForm hkeeps szTemp (hsystem (p, image) (image_mem himage))
          have hinsert : insertProcess w szTemp m p image = some (Function.update m p (some d)) := by
            rw [insertProcess, hd]
            rfl
          have hextend : Extends m (Function.update m p (some d)) := (Extends.refl m).update fun _ => hnot d
          have hless := absent_lt (d := d) hmp himage
          obtain ⟨-, -, m', paths, -, -, hevent, hcached, hextend', -⟩ :=
            onProcessEvent_keeps (hm.update hstable p) (fun m' hm' hext q => ih hm' (by
              have := absent_le system hext
              omega) q) true p (system.getParentProcessId p)
          refine ⟨d, m', ?_, hcached, hextend.trans hextend', hstable, fun h => absurd h hp, fun _ => hnot _,
            fun _ _ i hi => ?_, fun _ _ h => ?_⟩
          · simp only [bind, Option.bind, hinsert, hevent, hd]
          · rw [himage] at hi
            exact Option.some.inj hi ▸ hd
          · rw [himage] at h
            cases h

theorem getProcessPath_answers (hkeeps : w.KeepsDrive) (images : Images w) (hm : Cached w szTemp m) (p : UInt32) :
    ∃ path m', getProcessPath w szTemp images.system m p = some (path, m') ∧
      Answers w szTemp images.system m p path m' :=
  getProcessPathIn_answers hkeeps images.isImage hm (Nat.lt_succ_of_le (List.length_filter_le _ _)) p

/-! ## Histories -/

theorem handle_cached (hkeeps : w.KeepsDrive) (hm : Cached w szTemp m) (a : ProcessStep w) :
    ∃ m', handle w szTemp m a = some m' ∧ Cached w szTemp m' := by
  cases a with
  | created e =>
    obtain ⟨-, -, m', paths, -, -, hevent, hcached, -⟩ := onProcessEvent_keeps hm
      (fun m' hm' _ q => getProcessPath_answers hkeeps e.images hm' q) true e.processId e.parentProcessId
    exact ⟨m', by rw [handle, hevent]; rfl, hcached⟩
  | terminated p parent images =>
    obtain ⟨-, -, m', paths, -, -, hevent, hcached, -⟩ := onProcessEvent_keeps hm
      (fun m' hm' _ q => getProcessPath_answers hkeeps images hm' q) false p parent
    exact ⟨m', by rw [handle, hevent]; rfl, hcached⟩
  | lookup p images =>
    obtain ⟨path, m', hget, hanswer⟩ := getProcessPath_answers hkeeps images hm p
    exact ⟨m', by rw [handle, hget]; rfl, hanswer.cached⟩

/-- **Every history runs to its end.** -/
theorem run_cached (hkeeps : w.KeepsDrive) (hm : Cached w szTemp m) (steps : List (ProcessStep w)) :
    ∃ m', run (handle w szTemp) m steps = some m' ∧ Cached w szTemp m' := by
  induction steps generalizing m with
  | nil => exact ⟨m, rfl, hm⟩
  | cons a steps ih =>
    obtain ⟨m', hm', hcached⟩ := handle_cached hkeeps hm a
    obtain ⟨m'', hm'', hcached'⟩ := ih hcached
    refine ⟨m'', ?_, hcached'⟩
    rw [run_cons, hm']
    exact hm''

/-- The processes that run when the manager is made, with their images where they can be opened. -/
abbrev Snapshot (w : Windows) := List (UInt32 × Option {path : WString // IsImage w path})

def Snapshot.processMap (w : Windows) (szTemp : WString) (snapshot : Snapshot w) : Option ProcessMap :=
  initialiseProcessMap w szTemp (List.map (fun e => (e.1, e.2.map Subtype.val)) snapshot)

theorem snapshot_cached (hkeeps : w.KeepsDrive) (szTemp : WString) (snapshot : Snapshot w) :
    ∃ m, Snapshot.processMap w szTemp snapshot = some m ∧ Cached w szTemp m := by
  have hfold : ∀ m, Cached w szTemp m → ∃ m', (List.map (fun e => (e.1, e.2.map Subtype.val)) snapshot).foldlM
      (fun processMap (e : UInt32 × Option WString) =>
        if e.1 ≠ 0 then insertProcess w szTemp processMap e.1 (e.2.getD (lit "<unknown>")) else some processMap) m =
        some m' ∧ Cached w szTemp m' := by
    induction snapshot with
    | nil => exact fun m hm => ⟨m, rfl, hm⟩
    | cons e snapshot ih =>
      intro m hm
      have hdos : ∃ d, convertFileObjectPathToDOSPath w szTemp ((e.2.map Subtype.val).getD (lit "<unknown>")) = some d ∧
          Stable w szTemp d := by
        cases e.2 with
        | none =>
          have hunknown : Stable w szTemp (lit "<unknown>") := stable_of_head w szTemp (by decide)
          exact ⟨_, hunknown, hunknown⟩
        | some image =>
          obtain ⟨d, hd, hstable, -⟩ := dosForm hkeeps szTemp image.2
          exact ⟨d, hd, hstable⟩
      obtain ⟨d, hd, hstable⟩ := hdos
      have hinsert : insertProcess w szTemp m e.1 ((e.2.map Subtype.val).getD (lit "<unknown>")) =
          some (Function.update m e.1 (some d)) := by
        rw [insertProcess, hd]
        rfl
      rw [List.map_cons, List.foldlM_cons]
      dsimp only
      by_cases hzero : e.1 ≠ 0
      · rw [if_pos hzero, hinsert]
        exact ih _ (hm.update hstable e.1)
      · rw [if_neg hzero]
        exact ih m hm
  exact hfold _ fun q d h => by cases h

/-- Behind the event the process is looked up under the DOS form of its image. -/
def Right (w : Windows) (szTemp : WString) (m : ProcessMap) (e : CreatedProcess w) : Prop :=
  ∃ m' d m'', handle w szTemp m (.created e) = some m' ∧ convertFileObjectPathToDOSPath w szTemp e.image = some d ∧
    getProcessPath w szTemp e.images.system m' e.processId = some (d, m'')

/-- The pid is not known and its process can be opened, or it is known under the same path. -/
def Fresh (w : Windows) (szTemp : WString) (m : ProcessMap) (e : CreatedProcess w) : Prop :=
  e.processId ≠ 4 ∧ (m e.processId = none ∧ e.images.system.image e.processId = some e.image ∨
    m e.processId = convertFileObjectPathToDOSPath w szTemp e.image)

/-- **One event**: the path is right exactly if the pid was not known, or under that path. -/
theorem right_iff (hkeeps : w.KeepsDrive) (hm : Cached w szTemp m) (e : CreatedProcess w) :
    Right w szTemp m e ↔ Fresh w szTemp m e := by
  obtain ⟨d, hd, -, hunknown, hsystem⟩ := dosForm hkeeps szTemp e.isImage
  obtain ⟨path, m₁, m', paths, hget, hanswer, hevent, hcached, hextend, hpath⟩ := onProcessEvent_keeps hm
    (fun m' hm' _ q => getProcessPath_answers hkeeps e.images hm' q) true e.processId e.parentProcessId
  have hhandle : handle w szTemp m (.created e) = some m' := by
    rw [handle, hevent]
    rfl
  obtain ⟨path', m₂, hget', hanswer'⟩ := getProcessPath_answers hkeeps e.images hcached e.processId
  have hright : Right w szTemp m e ↔ path' = d := by
    constructor
    · rintro ⟨n, d', n', hn, hd', hn'⟩
      obtain rfl : m' = n := Option.some.inj (hhandle.symm.trans hn)
      obtain rfl : d = d' := Option.some.inj (hd.symm.trans hd')
      exact (Prod.mk.inj (Option.some.inj (hget'.symm.trans hn'))).1
    · rintro rfl
      exact ⟨m', path', m₂, hhandle, hd, hget'⟩
  rw [hright]
  unfold Fresh
  by_cases hp : e.processId = 4
  · refine iff_of_false (fun h => hsystem ?_) fun h => h.1 hp
    rw [← h, hanswer'.four hp]
  · rw [hanswer'.found hp path (hpath rfl hp), and_iff_right hp, hd]
    -- by what was known of the pid, and by what the system says
    cases hmp : m e.processId with
    | some old =>
      rw [hanswer.found hp old hmp]
      simp
    | none =>
      rcases e.opened with hnone | hsome
      · rw [hanswer.closed hp hmp hnone, hnone]
        refine iff_of_false hunknown.symm ?_
        simp
      · have hsame := hanswer.opened hp hmp e.image hsome
        rw [hd] at hsame
        exact iff_of_true (Option.some.inj hsame).symm (.inl ⟨rfl, hsome⟩)

/-- **A process that is created is looked up under its own path exactly if its pid was not known and it can be opened, or
its pid was known under the same path**: for the created events of every history, behind every snapshot. -/
theorem processMap_follows (w : Windows) (hkeeps : w.KeepsDrive) (szTemp : WString) (snapshot : Snapshot w)
    (steps : List (ProcessStep w)) :
    ∃ start, Snapshot.processMap w szTemp snapshot = some start ∧ (∃ m, run (handle w szTemp) start steps = some m) ∧
      ((∀ before e after, steps = before ++ .created e :: after →
          ∀ m, run (handle w szTemp) start before = some m → Right w szTemp m e) ↔
        ∀ before e after, steps = before ++ .created e :: after →
          ∀ m, run (handle w szTemp) start before = some m → Fresh w szTemp m e) := by
  obtain ⟨start, hstart, hcached⟩ := snapshot_cached hkeeps szTemp snapshot
  refine ⟨start, hstart, (run_cached hkeeps hcached steps).imp fun _ h => h.1, ?_⟩
  have hiff : ∀ before e m, run (handle w szTemp) start before = some m → (Right w szTemp m e ↔ Fresh w szTemp m e) := by
    intro before e m hm
    obtain ⟨m', hm', hcached'⟩ := run_cached hkeeps hcached before
    obtain rfl : m = m' := Option.some.inj (hm.symm.trans hm')
    exact right_iff hkeeps hcached' e
  constructor
  · intro h before e after hsteps m hm
    exact (hiff before e m hm).1 (h before e after hsteps m hm)
  · intro h before e after hsteps m hm
    exact (hiff before e m hm).2 (h before e after hsteps m hm)

theorem oneVolume_image {path : WString} (hhead : path.head? = some backslash) (hcount : path.count backslash ≠ 2) :
    IsImage oneVolume path := ⟨hhead, .inr ⟨hcount, fun _ _ _ h => by cases h⟩⟩

/-- The process 8, with an image on the volume, is created by the system. -/
def createdEight (image : WString) (hhead : image.head? = some backslash) (hcount : image.count backslash ≠ 2) :
    CreatedProcess oneVolume where
  processId := 8
  parentProcessId := 4
  image := image
  isImage := oneVolume_image hhead hcount
  images :=
    { system := ⟨[(8, image)], fun _ => 4⟩
      isImage := fun _ h => List.mem_singleton.1 h ▸ oneVolume_image hhead hcount }
  opened := .inr (by simp [System.image])

def firstEight : CreatedProcess oneVolume :=
  createdEight (lit "\\Device\\HarddiskVolume1\\a.exe") (by decide) (by decide)

def secondEight : CreatedProcess oneVolume :=
  createdEight (lit "\\Device\\HarddiskVolume1\\b.exe") (by decide) (by decide)

/-- A process is created and terminated, and its pid comes back for the same image. -/
def comesBack : List (ProcessStep oneVolume) :=
  [.created firstEight, .terminated 8 4 firstEight.images, .created firstEight]

theorem comesBack_followed : (run (handle oneVolume []) (fun _ => none) comesBack).isSome ∧
    ∀ before e after, comesBack = before ++ .created e :: after →
      ∀ m, run (handle oneVolume []) (fun _ => none) before = some m → Right oneVolume [] m e := by
  obtain ⟨start, hstart, ⟨m, hruns⟩, hiff⟩ := processMap_follows oneVolume (fun _ _ _ h => by cases h) [] [] comesBack
  obtain rfl : (fun _ => none) = start := Option.some.inj hstart
  refine ⟨Option.isSome_of_eq_some hruns, hiff.2 fun before e after hsteps m hm => ?_⟩
  rcases before with _ | ⟨a, _ | ⟨b, _ | ⟨c, before⟩⟩⟩
  · obtain rfl : firstEight = e := ProcessStep.created.inj (List.cons.inj hsteps).1
    obtain rfl : (fun _ => none) = m := Option.some.inj hm
    exact ⟨by decide, .inl ⟨rfl, by decide⟩⟩
  · simp [comesBack] at hsteps
  · -- it is known, and under the same path
    obtain ⟨rfl, htail⟩ := List.cons.inj hsteps
    obtain ⟨rfl, hlast⟩ := List.cons.inj htail
    obtain rfl : firstEight = e := ProcessStep.created.inj (List.cons.inj hlast).1
    have hknown : (run (handle oneVolume []) (fun _ => none) [.created firstEight, .terminated 8 4 firstEight.images]).map
        (fun m => m 8) = some (some (lit "C:\\a.exe")) := by decide +kernel
    have hdos : convertFileObjectPathToDOSPath oneVolume [] firstEight.image = some (lit "C:\\a.exe") := by decide
    rw [hm] at hknown
    exact ⟨by decide, .inr ((Option.some.inj hknown).trans hdos.symm)⟩
  · simp [comesBack] at hsteps

/-- A process is created and terminated, and another one with its pid is created. -/
def reused : List (ProcessStep oneVolume) :=
  [.created firstEight, .terminated 8 4 firstEight.images, .created secondEight]

/-- The second process is looked up under the path of the first. -/
theorem reused_stale : ¬∀ before e after, reused = before ++ .created e :: after →
    ∀ m, run (handle oneVolume []) (fun _ => none) before = some m → Right oneVolume [] m e := by
  intro h
  have hstale : (run (handle oneVolume []) (fun _ => none) reused).bind
      (fun m => (getProcessPath oneVolume [] secondEight.images.system m 8).map Prod.fst) = some (lit "C:\\a.exe") := by
    decide +kernel
  have hdos : convertFileObjectPathToDOSPath oneVolume [] secondEight.image = some (lit "C:\\b.exe") := by decide
  have hsplit : reused = [.created firstEight, .terminated 8 4 firstEight.images] ++ [.created secondEight] := rfl
  rw [hsplit, run_concat] at hstale
  cases hm : run (handle oneVolume []) (fun _ => none) [.created firstEight, .terminated 8 4 firstEight.images] with
  | none =>
    rw [hm] at hstale
    cases hstale
  | some m =>
    obtain ⟨m', d, m'', hm', hd, hget⟩ := h _ secondEight [] hsplit m hm
    have hpid : secondEight.processId = 8 := rfl
    rw [hm, Option.bind_some, hm', Option.bind_some, ← hpid, hget] at hstale
    have hsame : d = lit "C:\\a.exe" := Option.some.inj hstale
    rw [hd, hsame] at hdos
    revert hdos
    decide

end ProcessManager

end CaptureHPC
