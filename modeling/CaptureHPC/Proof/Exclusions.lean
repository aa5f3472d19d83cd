import CaptureHPC.Spec.Exclusions

/-!
# What exclusions decide and what clearing them does

* `foldl_combine`: the verdict of some rules, whatever their order.
* `rulesOf_permissions`: the map holds the rules of each type in the order in which they were added.
* `exclusion_decisions`: an event is allowed if a rule allows it and none denies it.
* `clearExclusionList_iff`: clearing works only when there is nothing to clear.
-/

namespace CaptureHPC

open Lib Cpp

variable {regexMatch : WString → WString → Bool} {valid : WString → Bool} {towlower : WChar → WChar} {junk : Bool}

/-! ## The verdict of some rules -/

namespace Monitor

theorem combine_allowed (e c : PermissionClassification) :
    combine e c = .allowed ↔ (e = .allowed ∨ c = .allowed) ∧ e ≠ .disallowed ∧ c ≠ .disallowed := by
  cases e <;> cases c <;> decide

theorem combine_disallowed (e c : PermissionClassification) :
    combine e c = .disallowed ↔ e = .disallowed ∨ c = .disallowed := by
  cases e <;> cases c <;> decide

/-- **Some verdict is to allow and none is to deny.** -/
theorem foldl_combine (cs : List PermissionClassification) (e : PermissionClassification) :
    cs.foldl combine e = .allowed ↔
      (e = .allowed ∨ .allowed ∈ cs) ∧ e ≠ .disallowed ∧ .disallowed ∉ cs := by
  induction cs generalizing e with
  | nil => cases e <;> decide
  | cons c cs ih =>
    rw [List.foldl_cons, ih, combine_allowed]
    simp only [ne_eq, combine_disallowed, List.mem_cons, not_or]
    constructor
    · rintro ⟨h | h, ⟨he, hc⟩, hcs⟩
      · exact ⟨h.1.imp_right fun hc => .inl hc.symm, he, fun hd => hc hd.symm, hcs⟩
      · exact ⟨.inr (.inr h), he, fun hd => hc hd.symm, hcs⟩
    · rintro ⟨h, he, hc, hcs⟩
      have hc' : ¬c = .disallowed := fun hd => hc hd.symm
      refine ⟨?_, ⟨he, hc'⟩, hcs⟩
      rcases h with h | h | h
      · exact .inl ⟨.inl h, he, hc'⟩
      · exact .inl ⟨.inr h.symm, he, hc'⟩
      · exact .inr h

/-! ## The rules of a type -/

def rulesOf (permissionMap : PermissionMap) (type : WString) : List Permission :=
  ((permissionMap.lookup type).map NodeList.values).getD []

theorem rulesOf_insert (action type : WString) (p : Permission) (m : PermissionMap) :
    rulesOf (insert action p m) type = rulesOf m type ++ if type = action then [p] else [] := by
  induction m with
  | nil =>
    by_cases h : type = action
    · subst h
      simp [insert, rulesOf]
    · have hbeq : (type == action) = false := beq_false_of_ne h
      simp [insert, rulesOf, List.lookup_cons, hbeq, h]
  | cons e m ih =>
    obtain ⟨t, l⟩ := e
    by_cases ht : t = action
    · subst ht
      rw [insert, if_pos rfl]
      by_cases h : type = t
      · subst h
        simp [rulesOf]
      · have hbeq : (type == t) = false := beq_false_of_ne h
        simp [rulesOf, List.lookup_cons, hbeq, h]
    · rw [insert, if_neg ht]
      by_cases h : type = t
      · subst h
        simp [rulesOf, ht]
      · have hbeq : (type == t) = false := beq_false_of_ne h
        have hcons : ∀ m', rulesOf ((t, l) :: m') type = rulesOf m' type := by
          intro m'
          rw [rulesOf, List.lookup_cons, hbeq]
          rfl
        rw [hcons, hcons, ih]

theorem isEventAllowed_eq (m : PermissionMap) (type subject object : WString) :
    isEventAllowed regexMatch towlower m type subject object =
      decide (((rulesOf m (type.map towlower)).map fun p => p.check regexMatch subject object).foldl combine .noMatch =
        .allowed) := by
  rw [isEventAllowed, rulesOf, List.foldl_map]
  cases m.lookup (type.map towlower) <;> rfl

end Monitor

/-! ## Rules that were added -/

/-- A call of `addExclusion`. -/
structure ExclusionRule where
  excluded : WString
  action : WString
  subject : WString
  object : WString
  permaneant : Bool
  deriving DecidableEq

namespace ExclusionRule

/-- One of the four permissions, and patterns that are regular expressions. -/
def WellFormed (valid : WString → Bool) (r : ExclusionRule) : Prop :=
  r.excluded ∈ ["+", "-", "yes", "no"].map (lit) ∧ valid r.subject = true ∧ valid r.object = true

def Allows (r : ExclusionRule) : Prop := r.excluded = lit "yes" ∨ r.excluded = lit "+"

instance (valid : WString → Bool) (r : ExclusionRule) : Decidable (r.WellFormed valid) :=
  inferInstanceAs (Decidable (_ ∧ _ ∧ _))

instance (r : ExclusionRule) : Decidable r.Allows := inferInstanceAs (Decidable (_ ∨ _))

/-- The rule is of the type, and its patterns match. -/
def Matches (regexMatch : WString → WString → Bool) (towlower : WChar → WChar) (type subject object : WString)
    (r : ExclusionRule) : Prop :=
  r.action.map towlower = type.map towlower ∧ regexMatch r.subject subject = true ∧ regexMatch r.object object = true

instance (regexMatch : WString → WString → Bool) (towlower : WChar → WChar) (type subject object : WString)
    (r : ExclusionRule) : Decidable (r.Matches regexMatch towlower type subject object) :=
  inferInstanceAs (Decidable (_ ∧ _ ∧ _))

def permission (junk : Bool) (r : ExclusionRule) : Permission where
  subjects := [r.subject]
  objects := [r.object]
  allow := Monitor.allowOf junk r.excluded
  permaneant := r.permaneant

/-- The rules are added to no rules. -/
def permissions (valid : WString → Bool) (towlower : WChar → WChar) (junk : Bool) (rules : List ExclusionRule) :
    Option PermissionMap :=
  rules.foldlM
    (fun m r => Monitor.addExclusion valid towlower junk r.excluded r.action r.subject r.object r.permaneant m) []

/-- The rules are added, and an event is asked for. -/
def isAllowed (regexMatch : WString → WString → Bool) (valid : WString → Bool) (towlower : WChar → WChar) (junk : Bool)
    (rules : List ExclusionRule) (type subject object : WString) : Bool :=
  match permissions valid towlower junk rules with
  | none => false
  | some m => Monitor.isEventAllowed regexMatch towlower m type subject object

theorem allowOf_iff (junk : Bool) {r : ExclusionRule} (h : r.WellFormed valid) :
    Monitor.allowOf junk r.excluded = true ↔ r.Allows := by
  obtain ⟨hmem, -⟩ := h
  unfold Monitor.allowOf Allows
  simp only [List.map_cons, List.map_nil, List.mem_cons, List.not_mem_nil, or_false] at hmem
  rcases hmem with h | h | h | h <;> rw [h] <;> cases junk <;> decide

theorem check_allowed {r : ExclusionRule} (h : r.WellFormed valid) (subject object : WString) :
    ((r.permission junk).check regexMatch subject object = .allowed ↔
      r.Allows ∧ regexMatch r.subject subject = true ∧ regexMatch r.object object = true) ∧
    ((r.permission junk).check regexMatch subject object = .disallowed ↔
      ¬r.Allows ∧ regexMatch r.subject subject = true ∧ regexMatch r.object object = true) := by
  rw [← allowOf_iff junk h]
  simp only [Permission.check, permission, List.any_cons, List.any_nil, Bool.or_false]
  by_cases hallow : Monitor.allowOf junk r.excluded = true <;> by_cases hsubject : regexMatch r.subject subject = true <;>
    by_cases hobject : regexMatch r.object object = true <;> simp [hallow, hsubject, hobject]

/-- **The map holds the rules of each type in the order in which they were added.** -/
theorem rulesOf_permissions (towlower : WChar → WChar) (junk : Bool) {rules : List ExclusionRule}
    (h : ∀ r ∈ rules, r.WellFormed valid) (m : PermissionMap) :
    ∃ m', rules.foldlM (fun m r =>
        Monitor.addExclusion valid towlower junk r.excluded r.action r.subject r.object r.permaneant m) m = some m' ∧
      ∀ type, Monitor.rulesOf m' type = Monitor.rulesOf m type ++
        (rules.filter fun r => type = r.action.map towlower).map (permission junk) := by
  induction rules generalizing m with
  | nil => exact ⟨m, rfl, fun type => by simp⟩
  | cons r rules ih =>
    rw [List.forall_mem_cons] at h
    obtain ⟨m', hm', hrules⟩ := ih h.2 (Monitor.insert (r.action.map towlower) (r.permission junk) m)
    have hadd : Monitor.addExclusion valid towlower junk r.excluded r.action r.subject r.object r.permaneant m =
        some (Monitor.insert (r.action.map towlower) (r.permission junk) m) := by
      rw [Monitor.addExclusion, h.1.2.1, h.1.2.2]
      rfl
    refine ⟨m', ?_, fun type => ?_⟩
    · rw [List.foldlM_cons, hadd]
      exact hm'
    · rw [hrules, Monitor.rulesOf_insert, List.append_assoc, List.filter_cons]
      by_cases htype : type = r.action.map towlower <;> simp [htype]

theorem isAllowed_iff {rules : List ExclusionRule} (h : ∀ r ∈ rules, r.WellFormed valid) (type subject object : WString) :
    isAllowed regexMatch valid towlower junk rules type subject object = true ↔
      (∃ r ∈ rules, r.Allows ∧ r.Matches regexMatch towlower type subject object) ∧
        ∀ r ∈ rules, ¬r.Allows → ¬r.Matches regexMatch towlower type subject object := by
  obtain ⟨m, hm, hrules⟩ := rulesOf_permissions towlower junk h []
  have hmem : ∀ c, c ∈ (Monitor.rulesOf m (type.map towlower)).map (fun p => p.check regexMatch subject object) ↔
      ∃ r ∈ rules, type.map towlower = r.action.map towlower ∧ (r.permission junk).check regexMatch subject object = c := by
    intro c
    rw [hrules]
    simp [Monitor.rulesOf, and_assoc]
  rw [isAllowed, permissions, hm]
  simp only [Monitor.isEventAllowed_eq, decide_eq_true_eq, Monitor.foldl_combine]
  rw [hmem, hmem]
  constructor
  · rintro ⟨hallow, -, hdeny⟩
    obtain ⟨r, hr, htype, hcheck⟩ := hallow.resolve_left (by decide)
    obtain ⟨hallows, hmatch⟩ := (check_allowed (h r hr) subject object).1.1 hcheck
    refine ⟨⟨r, hr, hallows, htype.symm, hmatch⟩, fun q hq hnot hmatches => hdeny ⟨q, hq, hmatches.1.symm, ?_⟩⟩
    exact (check_allowed (h q hq) subject object).2.2 ⟨hnot, hmatches.2⟩
  · rintro ⟨⟨r, hr, hallows, hmatches⟩, hdeny⟩
    refine ⟨.inr ⟨r, hr, hmatches.1.symm, (check_allowed (h r hr) subject object).1.2 ⟨hallows, hmatches.2⟩⟩, by decide, ?_⟩
    rintro ⟨q, hq, htype, hcheck⟩
    obtain ⟨hnot, hmatch⟩ := (check_allowed (h q hq) subject object).2.1 hcheck
    exact hdeny q hq hnot ⟨htype.symm, hmatch⟩

/-- **An event is allowed if a rule of its type allows it and none of its type denies it.** So the order of the
rules, their repetition and the rules of other types do not matter, and a rule that denies allows nothing. -/
theorem exclusion_decisions (regexMatch : WString → WString → Bool) (valid : WString → Bool) (towlower : WChar → WChar)
    (junk : Bool) (rules : List ExclusionRule) (h : ∀ r ∈ rules, r.WellFormed valid) :
    (permissions valid towlower junk rules).isSome = true ∧
    (∀ type subject object, isAllowed regexMatch valid towlower junk rules type subject object = true ↔
      (∃ r ∈ rules, r.Allows ∧ r.Matches regexMatch towlower type subject object) ∧
        ∀ r ∈ rules, ¬r.Allows → ¬r.Matches regexMatch towlower type subject object) ∧
    (∀ rules' type, (∀ r ∈ rules', r.WellFormed valid) →
      (∀ r, r.action.map towlower = type.map towlower → (r ∈ rules' ↔ r ∈ rules)) → ∀ subject object,
        isAllowed regexMatch valid towlower junk rules' type subject object =
          isAllowed regexMatch valid towlower junk rules type subject object) ∧
    ∀ r type subject object, r.WellFormed valid → ¬r.Allows →
      isAllowed regexMatch valid towlower junk (rules ++ [r]) type subject object = true →
        isAllowed regexMatch valid towlower junk rules type subject object = true := by
  refine ⟨?_, isAllowed_iff h, fun rules' type h' hsame subject object => ?_, fun r type subject object hr hdeny => ?_⟩
  · obtain ⟨m, hm, -⟩ := rulesOf_permissions towlower junk h []
    rw [permissions, hm]
    rfl
  · rw [Bool.eq_iff_iff, isAllowed_iff h', isAllowed_iff h]
    -- a rule that matches is of the type, so it is among both
    have hiff : ∀ r, r.Matches regexMatch towlower type subject object → (r ∈ rules' ↔ r ∈ rules) :=
      fun r hr => hsame r hr.1
    constructor
    · rintro ⟨⟨r, hr, hallows, hmatches⟩, hdeny⟩
      exact ⟨⟨r, (hiff r hmatches).1 hr, hallows, hmatches⟩,
        fun q hq hnot hmatch => hdeny q ((hiff q hmatch).2 hq) hnot hmatch⟩
    · rintro ⟨⟨r, hr, hallows, hmatches⟩, hdeny⟩
      exact ⟨⟨r, (hiff r hmatches).2 hr, hallows, hmatches⟩,
        fun q hq hnot hmatch => hdeny q ((hiff q hmatch).1 hq) hnot hmatch⟩
  · have hall : ∀ q ∈ rules ++ [r], q.WellFormed valid := by
      intro q hq
      rcases List.mem_append.1 hq with hq | hq
      · exact h q hq
      · exact List.mem_singleton.1 hq ▸ hr
    rw [isAllowed_iff hall, isAllowed_iff h]
    rintro ⟨⟨q, hq, hallows, hmatches⟩, hdenied⟩
    rcases List.mem_append.1 hq with hq | hq
    · exact ⟨⟨q, hq, hallows, hmatches⟩, fun p hp => hdenied p (List.mem_append_left _ hp)⟩
    · exact absurd (List.mem_singleton.1 hq ▸ hallows) hdeny

/-- The directory of the logs, and one file in it that is not excluded. -/
def logRules : List ExclusionRule :=
  [⟨lit "+", lit "Write", lit ".*", lit "logs", true⟩, ⟨lit "no", lit "write", lit "a.exe", lit "logs", false⟩]

theorem logRules_decided :
    isAllowed (fun p s => p == lit ".*" || p == s) (fun _ => true) (fun w => if w < 0x61 then w + 0x20 else w) false logRules
        (lit "WRITE") (lit "b.exe") (lit "logs") = true ∧
      isAllowed (fun p s => p == lit ".*" || p == s) (fun _ => true) (fun w => if w < 0x61 then w + 0x20 else w) false logRules
        (lit "WRITE") (lit "a.exe") (lit "logs") = false := by
  have h := exclusion_decisions (fun p s => p == lit ".*" || p == s) (fun _ => true)
    (fun w => if w < 0x61 then w + 0x20 else w) false logRules (by decide)
  refine ⟨(h.2.1 _ _ _).2 ⟨⟨_, List.mem_cons_self, by decide⟩, ?_⟩, ?_⟩
  · decide
  · rw [← Bool.not_eq_true, h.2.1]
    rintro ⟨-, hdeny⟩
    exact hdeny ⟨lit "no", lit "write", lit "a.exe", lit "logs", false⟩ (by decide) (by decide)
      (by decide)

end ExclusionRule

/-! ## Clearing -/

namespace Monitor

variable {l : NodeList Permission}

theorem clear_permaneant (h : ∀ p ∈ l.values, p.permaneant = true) :
    NodeList.iterate clearRule (l.nodes.length + 1) l.first l = .ok l := by
  refine NodeList.iterate_ok (List.nil_append _).symm (fun n hn => ?_) (Nat.le_succ _)
  rw [clearRule, h n.2 (List.mem_map_of_mem hn)]
  rfl

/-- The first rule that is not permanent is erased while the iterator is at it. -/
theorem clear_other {p : Permission} (hp : p ∈ l.values) (hother : p.permaneant = false) :
    NodeList.iterate clearRule (l.nodes.length + 1) l.first l = .error .dangling := by
  have hsplit : ∃ kept a x rest, l.nodes = kept ++ (a, x) :: rest ∧ (∀ n ∈ kept, n.2.permaneant = true) ∧
      x.permaneant = false := by
    obtain ⟨n, hn, rfl⟩ := List.mem_map.1 hp
    obtain ⟨⟨a, x⟩, hfirst⟩ : ∃ n, l.nodes.find? (fun n => !n.2.permaneant) = some n := by
      rw [← Option.isSome_iff_exists, List.find?_isSome]
      exact ⟨n, hn, by rw [hother]; rfl⟩
    obtain ⟨hx, kept, rest, hnodes, hkept⟩ := List.find?_eq_some_iff_append.1 hfirst
    refine ⟨kept, a, x, rest, hnodes, fun n hn => ?_, ?_⟩
    · simpa using hkept n hn
    · simpa using hx
  obtain ⟨kept, a, x, rest, hnodes, hkept, hx⟩ := hsplit
  have hlt : kept.length < l.nodes.length + 1 := by
    rw [hnodes, List.length_append, List.length_cons]
    omega
  have hbefore : l.nodes = [] ++ (kept ++ (a, x) :: rest) := by rw [List.nil_append, hnodes]
  have hstay : ∀ n ∈ kept, clearRule l n.1 n.2 = l := fun n hn => by rw [clearRule, hkept n hn]; rfl
  have herase : clearRule l a x = l.erase a := by rw [clearRule, hx]; rfl
  have herased := NodeList.iterate_erased hbefore hstay herase hlt
  rwa [← hnodes] at herased

theorem clearExclusionList_cons (type : WString) (l : NodeList Permission) (m : PermissionMap) :
    clearExclusionList ((type, l) :: m) = (NodeList.iterate clearRule (l.nodes.length + 1) l.first l).bind fun l' =>
      (clearExclusionList m).bind fun m' => .ok ((type, l') :: m') := by
  simp only [clearExclusionList, List.mapM_cons]
  cases NodeList.iterate clearRule (l.nodes.length + 1) l.first l <;> rfl

theorem clear_all {m : PermissionMap} (h : ∀ e ∈ m, ∀ p ∈ e.2.values, p.permaneant = true) :
    clearExclusionList m = .ok m := by
  induction m with
  | nil => rfl
  | cons e m ih =>
    rw [List.forall_mem_cons] at h
    rw [clearExclusionList_cons, clear_permaneant h.1, ih h.2]
    rfl

theorem clear_some {m : PermissionMap} {e : WString × NodeList Permission} (he : e ∈ m) {p : Permission}
    (hp : p ∈ e.2.values) (hother : p.permaneant = false) : clearExclusionList m = .error .dangling := by
  induction m with
  | nil => cases he
  | cons d m ih =>
    rw [clearExclusionList_cons]
    rcases List.mem_cons.1 he with rfl | he
    · rw [clear_other hp hother]
      rfl
    · by_cases hd : ∀ q ∈ d.2.values, q.permaneant = true
      · rw [clear_permaneant hd, ih he]
        rfl
      · push Not at hd
        obtain ⟨q, hq, hqp⟩ := hd
        rw [clear_other hq (Bool.eq_false_iff.2 hqp)]
        rfl

/-- **Clearing leaves the permanent rules exactly if all rules are permanent.** Else an iterator is advanced
whose node was erased. -/
theorem clearExclusionList_iff (m : PermissionMap) :
    ((∃ m', clearExclusionList m = .ok m' ∧ m'.map (fun e => (e.1, e.2.values)) =
        m.map fun e => (e.1, e.2.values.filter (·.permaneant))) ↔
      ∀ e ∈ m, ∀ p ∈ e.2.values, p.permaneant = true) ∧
    ((∃ e ∈ m, ∃ p ∈ e.2.values, p.permaneant = false) → clearExclusionList m = .error .dangling) := by
  have hother : (∃ e ∈ m, ∃ p ∈ e.2.values, p.permaneant = false) → clearExclusionList m = .error .dangling := by
    rintro ⟨e, he, p, hp, hother⟩
    exact clear_some he hp hother
  refine ⟨⟨?_, fun h => ⟨m, clear_all h, List.map_congr_left fun e he => ?_⟩⟩, hother⟩
  · rintro ⟨m', hm', -⟩
    by_contra hnot
    push Not at hnot
    obtain ⟨e, he, p, hp, hperm⟩ := hnot
    rw [hother ⟨e, he, p, hp, Bool.eq_false_iff.2 hperm⟩] at hm'
    cases hm'
  · rw [List.filter_eq_self.2 (h e he)]

/-- One rule that is not permanent. -/
theorem oneRule_dangles :
    ¬∃ m', clearExclusionList [(lit "write", NodeList.empty.pushBack ⟨[lit ".*"], [lit "logs"], true, false⟩)] = .ok m' ∧
      m'.map (fun e => (e.1, e.2.values)) = [(lit "write", [])] := by
  rintro ⟨m', hm', -⟩
  have herror : clearExclusionList [(lit "write", NodeList.empty.pushBack ⟨[lit ".*"], [lit "logs"], true, false⟩)] =
      .error .dangling := clear_some List.mem_cons_self List.mem_cons_self rfl
  rw [herror] at hm'
  cases hm'

end Monitor

end CaptureHPC
