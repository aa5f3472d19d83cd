import CaptureHPC.Spec.Plugins

/-!
# Which plugin serves an application

* `plugins`: those that are loaded, in order. Each has the number of its place (`object_of_mem`).
* `addApplications_apply`: the loop over the names of one plugin treats each name once.
* `applicationMap_eq_argmax`: the map has the first of the best among those that support a name.
* `applicationMap_best`: the same without `argmax`.
-/

namespace CaptureHPC.ClientPlugins

open Cpp

/-- The plugin that loading a file creates behind `created` others. -/
def pluginOf (created : ℕ) : PluginFile → Option ApplicationPlugin
  | .library _ (some (priority, names)) => some ⟨created, priority, names⟩
  | _ => none

/-- The plugins that are loaded, in order. -/
def plugins (files : List PluginFile) : List ApplicationPlugin :=
  files.foldl (fun loaded file => loaded ++ (pluginOf loaded.length file).toList) []

/-- Whether a plugin lists this application. -/
def supports (name : WString) (p : ApplicationPlugin) : Bool := name ∈ p.supportedApplicationNames

/-- The one that serves the application when a plugin is loaded that supports it. -/
def better (p : ApplicationPlugin) : Option ApplicationPlugin → ApplicationPlugin
  | none => p
  | some existing => if existing.priority.toNat < p.priority.toNat then p else existing

variable {p q : ApplicationPlugin} {name : WString} {files : List PluginFile} {s : ClientPlugins}

theorem plugins_concat (files : List PluginFile) (file : PluginFile) :
    plugins (files ++ [file]) = plugins files ++ (pluginOf (plugins files).length file).toList := by
  unfold plugins
  rw [List.foldl_append]
  rfl

/-- **A plugin's object has the number of its place.** -/
theorem object_of_getElem? {i : ℕ} (h : (plugins files)[i]? = some p) : p.object = i := by
  induction files using List.reverseRecOn with
  | nil => cases h
  | append_singleton files file ih =>
    rw [plugins_concat] at h
    by_cases hi : i < (plugins files).length
    · rw [List.getElem?_append_left hi] at h
      exact ih h
    · rw [List.getElem?_append_right (by omega)] at h
      unfold pluginOf at h
      split at h
      · rw [Option.toList_some, List.getElem?_singleton] at h
        split_ifs at h with hfirst
        obtain rfl := Option.some.inj h
        show (plugins files).length = i
        omega
      · cases h

/-- One name: the plugin is put in if there is none or a worse one. -/
theorem addApplication_apply (p : ApplicationPlugin) (m : WString → Option ApplicationPlugin) (name : WString) :
    addApplication p m name = Function.update m name (some (better p (m name))) := by
  unfold addApplication
  cases hm : m name with
  | none => rfl
  | some existing =>
    simp only [better, gt_iff_lt, UInt32.lt_iff_toNat_lt]
    split_ifs with hlt
    · rfl
    · rw [← hm, Function.update_eq_self]

theorem better_better (p : ApplicationPlugin) (o : Option ApplicationPlugin) :
    better p (some (better p o)) = better p o := by
  cases o with
  | none => exact if_neg (Nat.lt_irrefl _)
  | some existing =>
    simp only [better]
    split_ifs <;> rfl

/-- **The loop over the names of a plugin** changes what these names map to, each once even if it is listed twice. -/
theorem foldl_addApplication (p : ApplicationPlugin) (names : List WString) (m : WString → Option ApplicationPlugin)
    (name : WString) :
    names.foldl (addApplication p) m name = if name ∈ names then some (better p (m name)) else m name := by
  induction names generalizing m with
  | nil => simp
  | cons first names ih =>
    rw [List.foldl_cons, ih, addApplication_apply]
    by_cases hfirst : name = first
    · subst hfirst
      rw [Function.update_self, better_better, if_pos List.mem_cons_self]
      split_ifs <;> rfl
    · rw [Function.update_of_ne hfirst]
      simp only [List.mem_cons, hfirst, false_or]

/-- What is kept while plugins are loaded. -/
structure Follows (s : ClientPlugins) (loaded : List ApplicationPlugin) : Prop where
  created : s.created = loaded.length
  applicationMap : ∀ name, s.applicationMap name = (loaded.filter (supports name)).argmax (·.priority.toNat)

theorem follows_start : Follows {} [] := ⟨rfl, fun _ => rfl⟩

/-- **One file.** -/
theorem Follows.loadPlugin {loaded : List ApplicationPlugin} (h : Follows s loaded) (file : PluginFile) :
    Follows (s.loadPlugin file) (loaded ++ (pluginOf loaded.length file).toList) := by
  match file with
  | .broken =>
    have hnone : pluginOf loaded.length .broken = none := rfl
    rw [hnone, Option.toList_none, List.append_nil]
    exact h
  | .library hPlugin none =>
    have hnone : pluginOf loaded.length (.library hPlugin none) = none := rfl
    rw [hnone, Option.toList_none, List.append_nil]
    exact ⟨h.created, h.applicationMap⟩
  | .library hPlugin (some (priority, names)) =>
    rw [pluginOf, ← h.created, Option.toList_some]
    constructor
    · show s.created + 1 = _
      rw [h.created, List.length_append, List.length_singleton]
    · intro name
      show names.foldl (addApplication ⟨s.created, priority, names⟩) s.applicationMap name = _
      rw [foldl_addApplication, h.applicationMap, List.filter_append]
      by_cases hname : name ∈ names
      · -- the new plugin is compared with the best of the earlier ones
        have hsupports : supports name ⟨s.created, priority, names⟩ = true := decide_eq_true hname
        rw [if_pos hname, List.filter_singleton, hsupports, cond_true, List.argmax_concat]
        cases (loaded.filter (supports name)).argmax (·.priority.toNat) with
        | none => rfl
        | some existing =>
          simp only [better]
          split_ifs <;> rfl
      · have hsupports : supports name ⟨s.created, priority, names⟩ = false := decide_eq_false hname
        rw [if_neg hname, List.filter_singleton, hsupports, cond_false, List.append_nil]

theorem loadClientPlugins_follows (files : List PluginFile) : Follows (loadClientPlugins files) (plugins files) := by
  induction files using List.reverseRecOn with
  | nil => exact follows_start
  | append_singleton files file ih =>
    rw [plugins_concat]
    have hload : loadClientPlugins (files ++ [file]) = (loadClientPlugins files).loadPlugin file := by
      unfold loadClientPlugins
      rw [List.foldl_append]
      rfl
    rw [hload]
    exact ih.loadPlugin file

/-- **The map has the first of the best among the plugins that support a name.** -/
theorem applicationMap_eq_argmax (files : List PluginFile) (name : WString) :
    (loadClientPlugins files).applicationMap name =
      ((plugins files).filter (supports name)).argmax (·.priority.toNat) :=
  (loadClientPlugins_follows files).applicationMap name

/-- The objects are in increasing order. -/
theorem pairwise_object (files : List PluginFile) : (plugins files).Pairwise (·.object < ·.object) := by
  rw [List.pairwise_iff_getElem]
  intro i j hi hj hij
  have hobject : ∀ k (hk : k < (plugins files).length), (plugins files)[k].object = k := by
    intro k hk
    exact object_of_getElem? (List.getElem?_eq_getElem hk)
  rw [hobject i hi, hobject j hj]
  exact hij

/-- In a list with increasing objects, earlier means a smaller object. -/
theorem idxOf_le_iff {l : List ApplicationPlugin} (hl : l.Pairwise (·.object < ·.object)) (hp : p ∈ l) (hq : q ∈ l) :
    l.idxOf p ≤ l.idxOf q ↔ p.object ≤ q.object := by
  have hidxp := List.idxOf_lt_length_iff.2 hp
  have hidxq := List.idxOf_lt_length_iff.2 hq
  have hget : l[l.idxOf p] = p := List.getElem_idxOf hidxp
  have hget' : l[l.idxOf q] = q := List.getElem_idxOf hidxq
  rw [List.pairwise_iff_getElem] at hl
  constructor
  · intro hle
    rcases Nat.lt_or_eq_of_le hle with hlt | heq
    · have hobject := hl _ _ hidxp hidxq hlt
      rw [hget, hget'] at hobject
      omega
    · rw [← hget, ← hget']
      simp only [heq, le_refl]
  · intro hle
    by_contra hlt
    have hobject := hl _ _ hidxq hidxp (by omega)
    rw [hget, hget'] at hobject
    omega

/-- **The best plugin serves each application**: a name is mapped to the plugin that was loaded first among those of
the highest priority that support it, and to none if there is no such plugin. -/
theorem applicationMap_best (files : List PluginFile) (name : WString) :
    (∀ p, (loadClientPlugins files).applicationMap name = some p ↔
      p ∈ plugins files ∧ name ∈ p.supportedApplicationNames ∧
        ∀ q ∈ plugins files, name ∈ q.supportedApplicationNames →
          q.priority ≤ p.priority ∧ (q.priority = p.priority → p.object ≤ q.object)) ∧
    ((loadClientPlugins files).applicationMap name = none ↔
      ∀ q ∈ plugins files, name ∉ q.supportedApplicationNames) ∧
    ∀ (i : ℕ) (p : ApplicationPlugin), (plugins files)[i]? = some p → p.object = i := by
  have hsupports : ∀ p : ApplicationPlugin, supports name p = true ↔ name ∈ p.supportedApplicationNames :=
    fun _ => decide_eq_true_iff
  have hsorted := (pairwise_object files).filter (supports name)
  rw [applicationMap_eq_argmax]
  refine ⟨fun p => ?_, ?_, fun i p => object_of_getElem?⟩
  · rw [← Option.mem_def, List.mem_argmax_iff]
    constructor
    · rintro ⟨hp, hmax, hfirst⟩
      have hmem := List.mem_filter.1 hp
      refine ⟨hmem.1, (hsupports p).1 hmem.2, fun q hq hname => ?_⟩
      have hq' := List.mem_filter.2 ⟨hq, (hsupports q).2 hname⟩
      refine ⟨UInt32.le_iff_toNat_le.2 (hmax q hq'), fun heq => ?_⟩
      exact (idxOf_le_iff hsorted hp hq').1 (hfirst q hq' (by rw [heq]))
    · rintro ⟨hp, hname, hbest⟩
      have hp' := List.mem_filter.2 ⟨hp, (hsupports p).2 hname⟩
      refine ⟨hp', fun q hq => ?_, fun q hq hle => ?_⟩
      · obtain ⟨hmem, hsupported⟩ := List.mem_filter.1 hq
        exact UInt32.le_iff_toNat_le.1 (hbest q hmem ((hsupports q).1 hsupported)).1
      · obtain ⟨hmem, hsupported⟩ := List.mem_filter.1 hq
        obtain ⟨hge, hfirst⟩ := hbest q hmem ((hsupports q).1 hsupported)
        -- a priority that is no smaller and no larger
        have heq : q.priority = p.priority :=
          UInt32.toNat_inj.1 (Nat.le_antisymm (UInt32.le_iff_toNat_le.1 hge) hle)
        exact (idxOf_le_iff hsorted hp' hq).2 (hfirst heq)
  · rw [List.argmax_eq_none, List.filter_eq_nil_iff]
    simp only [hsupports]

end CaptureHPC.ClientPlugins
