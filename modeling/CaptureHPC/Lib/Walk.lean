import Mathlib

/-!
# Walks of a partial function

`walk next a n` is where `n` steps lead from `a`. Where every place that is visited must be a good one
(`ok`), a walk through finitely many places ends if and only if it visits none of them twice
(`ends_iff`).
-/

namespace Lib

variable {α : Type} {next : α → Option α} {ok : α → Prop} {a : α}

/-- Where `n` steps lead. -/
def walk (next : α → Option α) (a : α) : ℕ → Option α
  | 0 => some a
  | n + 1 => (walk next a n).bind next

/-- The walk ends within `n` places, all of them good. -/
def Ends (next : α → Option α) (ok : α → Prop) : ℕ → α → Prop
  | 0, _ => False
  | n + 1, a => ok a ∧ ∀ b, next a = some b → Ends next ok n b

theorem walk_succ' (n : ℕ) : walk next a (n + 1) = (next a).bind (walk next · n) := by
  induction n with
  | zero => simp [walk]
  | succ n ih =>
    rw [walk, ih]
    cases h : next a with
    | none => rfl
    | some b => rfl

theorem walk_add (i j : ℕ) : walk next a (i + j) = (walk next a i).bind (walk next · j) := by
  induction j with
  | zero => simp [walk]
  | succ j ih =>
    rw [← Nat.add_assoc, walk, ih, Option.bind_assoc]
    rfl

/-- A walk along a list. -/
theorem walk_eq_getElem? {l : List α} (hsteps : (a :: l).IsChain fun p q => next p = some q)
    (hlast : next ((a :: l).getLast (List.cons_ne_nil a l)) = none) (i : ℕ) : walk next a i = (a :: l)[i]? := by
  induction l generalizing a i with
  | nil =>
    cases i with
    | zero => rfl
    | succ i => rw [walk_succ', show next a = none from hlast, Option.bind_none]; rfl
  | cons b l ih =>
    obtain ⟨hnext, hrest⟩ := List.isChain_cons_cons.1 hsteps
    cases i with
    | zero => rfl
    | succ i =>
      rw [walk_succ', hnext, Option.bind_some, ih hrest (by rwa [List.getLast_cons_cons] at hlast)]
      rfl

/-- Behind the end there is nothing. -/
theorem walk_none {i j : ℕ} (h : walk next a i = none) (hij : i ≤ j) : walk next a j = none := by
  obtain ⟨k, rfl⟩ := Nat.exists_eq_add_of_le hij
  rw [walk_add, h, Option.bind_none]

theorem ends_iff_walk (n : ℕ) : Ends next ok n a ↔ walk next a n = none ∧ ∀ i p, walk next a i = some p → ok p := by
  induction n generalizing a with
  | zero => simp [Ends, walk]
  | succ n ih =>
    constructor
    · rintro ⟨hok, hrest⟩
      cases hnext : next a with
      | none =>
        have hend : ∀ k, walk next a (k + 1) = none := fun k => by rw [walk_succ', hnext, Option.bind_none]
        refine ⟨hend n, fun i p hp => ?_⟩
        cases i with
        | zero => exact Option.some.inj hp ▸ hok
        | succ i => rw [hend i] at hp; cases hp
      | some b =>
        obtain ⟨hnone, hall⟩ := ih.1 (hrest b hnext)
        refine ⟨by rw [walk_succ', hnext, Option.bind_some, hnone], fun i p hp => ?_⟩
        cases i with
        | zero => exact Option.some.inj hp ▸ hok
        | succ i =>
          rw [walk_succ', hnext, Option.bind_some] at hp
          exact hall i p hp
    · rintro ⟨hnone, hall⟩
      refine ⟨hall 0 a rfl, fun b hb => ih.2 ⟨?_, fun i p hp => hall (i + 1) p ?_⟩⟩
      · rwa [walk_succ', hb, Option.bind_some] at hnone
      · rwa [walk_succ', hb, Option.bind_some]

/-- A walk that comes back does not end. -/
theorem walk_some_of_repeat {i j : ℕ} {p : α} (hij : i < j) (hi : walk next a i = some p)
    (hj : walk next a j = some p) (n : ℕ) : (walk next a n).isSome := by
  obtain ⟨k, rfl⟩ := Nat.exists_eq_add_of_lt hij
  have hback : walk next p (k + 1) = some p := by
    rw [Nat.add_assoc, walk_add, hi, Option.bind_some] at hj
    exact hj
  have hmul : ∀ m, walk next p (m * (k + 1)) = some p := by
    intro m
    induction m with
    | zero => rw [Nat.zero_mul]; rfl
    | succ m ih => rw [Nat.succ_mul, walk_add, ih, Option.bind_some, hback]
  by_contra hn
  rw [Option.not_isSome_iff_eq_none] at hn
  have hle : n ≤ i + n * (k + 1) := by
    have : n ≤ n * (k + 1) := Nat.le_mul_of_pos_right n (Nat.succ_pos k)
    omega
  have hnone := walk_none hn hle
  rw [walk_add, hi, Option.bind_some, hmul] at hnone
  cases hnone

/-- **A walk through finitely many places ends if and only if it visits none twice.** -/
theorem ends_iff (S : Finset α) (hS : ∀ i p, walk next a i = some p → ok p → p ∈ S) :
    (∃ n, Ends next ok n a) ↔ (∀ i p, walk next a i = some p → ok p) ∧
      ∀ i j p, i < j → walk next a i = some p → walk next a j ≠ some p := by
  constructor
  · rintro ⟨n, hn⟩
    obtain ⟨hnone, hall⟩ := (ends_iff_walk n).1 hn
    refine ⟨hall, fun i j p hij hi hj => ?_⟩
    have hsome := walk_some_of_repeat hij hi hj n
    rw [hnone] at hsome
    cases hsome
  · rintro ⟨hall, hdistinct⟩
    refine ⟨S.card, (ends_iff_walk _).2 ⟨?_, hall⟩⟩
    by_contra hsome
    -- more places than `S` has
    have hat : ∀ i ≤ S.card, ∃ p, walk next a i = some p := fun i hi => by
      cases h : walk next a i with
      | none => exact absurd (walk_none h hi) hsome
      | some p => exact ⟨p, rfl⟩
    have : Nonempty α := ⟨a⟩
    choose! place hplace using hat
    have hinj : Set.InjOn place (Finset.range (S.card + 1) : Set ℕ) := by
      intro i hi j hj hij
      rw [Finset.coe_range, Set.mem_Iio] at hi hj
      have hpi := hplace i (by omega)
      have hpj := hplace j (by omega)
      rw [← hij] at hpj
      rcases Nat.lt_trichotomy i j with h | h | h
      · exact absurd hpj (hdistinct i j _ h hpi)
      · exact h
      · exact absurd hpi (hdistinct j i _ h hpj)
    have hmaps : Set.MapsTo place (Finset.range (S.card + 1) : Set ℕ) S := by
      intro i hi
      rw [Finset.coe_range, Set.mem_Iio] at hi
      have hpi := hplace i (by omega)
      exact hS i _ hpi (hall i _ hpi)
    have hcard := Finset.card_le_card_of_injOn place hmaps hinj
    rw [Finset.card_range] at hcard
    omega

end Lib
