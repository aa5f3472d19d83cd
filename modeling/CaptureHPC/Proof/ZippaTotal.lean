import CaptureHPC.Lib.Walk
import CaptureHPC.Proof.ZippaSteps

/-!
# When the processing of a zip file ends

* `process_ends`: a call returns if and only if the walk along the declared lengths (`nextAt`) ends, at
  places where what is read lies in the array (`Fits`).
* `process_error`: a call that does not return has read outside of the array, or does not end.
* `processZipFile_total`: so it ends, with all reads in the array, if and only if every place of the walk
  fits and none is visited twice.
-/

namespace CaptureHPC

open Lib Zip

variable {arg : String} {data : Bytes} {z : Zippa}

/-! ## The walk -/

def inside (data : Bytes) (o : ℤ) : Option ℤ := if o < data.length then some o else none

/-- Where a call at `o` goes on. -/
def nextAt (data : Bytes) (o : ℤ) : Option ℤ :=
  if 0 ≤ o ∧ o + 4 ≤ data.length then
    if slice o.toNat 4 data = localSignature then inside data (localNext data o.toNat)
    else if slice o.toNat 4 data = centralSignature then inside data (centralNext data o.toNat)
    else none
  else none

/-- The header that starts at `o`, if one does, lies in the array as far as it is read. At the upper end
of the `int`s the length of the last comment is not read. -/
structure HeaderFits (data : Bytes) (o : ℕ) : Prop where
  localEntry : slice o 4 data = localSignature → o + 30 ≤ data.length
  central : slice o 4 data = centralSignature → o + 34 ≤ data.length
  last : slice o 4 data = endSignature → o + 22 ≤ data.length ∨ o + 20 < 2 ^ 31 ∧ 2 ^ 31 ≤ o + 22

def Fits (data : Bytes) (o : ℤ) : Prop := o + 4 ≤ data.length → 0 ≤ o ∧ HeaderFits data o.toNat

theorem inside_eq_some {o p : ℤ} (h : inside data o = some p) : p = o ∧ o < data.length := by
  unfold inside at h
  split_ifs at h with hlt
  exact ⟨(Option.some.inj h).symm, hlt⟩

theorem localNext_int (o : ℕ) : -2 ^ 31 ≤ localNext data o ∧ localNext data o < 2 ^ 31 := by
  unfold localNext
  exact ⟨le_wrap _, wrap_lt _⟩

theorem centralNext_int (o : ℕ) : -2 ^ 31 ≤ centralNext data o ∧ centralNext data o < 2 ^ 31 := by
  unfold centralNext
  exact ⟨le_wrap _, wrap_lt _⟩

/-- The places of a walk are `int`s. -/
theorem nextAt_int {o p : ℤ} (h : nextAt data o = some p) : -2 ^ 31 ≤ p ∧ p < 2 ^ 31 := by
  unfold nextAt at h
  split_ifs at h
  · rw [(inside_eq_some h).1]
    exact localNext_int _
  · rw [(inside_eq_some h).1]
    exact centralNext_int _

theorem centralSignature_ne_local : centralSignature ≠ localSignature := by decide

theorem endSignature_ne_local : endSignature ≠ localSignature := by decide

theorem endSignature_ne_central : endSignature ≠ centralSignature := by decide

theorem returns_zero (o : ℤ) : returns ((processZipFile arg data 0 o).run z) = false := rfl

theorem not_returns_negative {fuel : ℕ} {o : ℤ} (ho : o < 0) (ho' : -2 ^ 31 ≤ o) (h : o + 4 ≤ data.length) :
    returns ((processZipFile arg data fuel o).run z) = false := by
  cases fuel with
  | zero => exact returns_zero o
  | succ fuel =>
    rw [process_negative ho ho' h]
    rfl

theorem nextAt_natCast {o : ℕ} (h : o + 4 ≤ data.length) : nextAt data o =
    if slice o 4 data = localSignature then inside data (localNext data o)
    else if slice o 4 data = centralSignature then inside data (centralNext data o) else none := by
  rw [nextAt, if_pos (by omega), Int.toNat_natCast]

theorem Fits_natCast {o : ℕ} (h : o + 4 ≤ data.length) : Fits data o ↔ HeaderFits data o := by
  unfold Fits
  rw [Int.toNat_natCast]
  exact ⟨fun hfits => (hfits (by omega)).2, fun hfits _ => ⟨by omega, hfits⟩⟩

/-! ## One call -/

/-- What `returns` has to do with the walk, for the calls with less fuel. -/
def ReturnsWhenEnds (arg : String) (data : Bytes) (fuel : ℕ) : Prop :=
  ∀ o z, -2 ^ 31 ≤ o → o < 2 ^ 31 →
    (returns ((processZipFile arg data fuel o).run z) = true ↔ Ends (nextAt data) (Fits data) fuel o)

theorem ReturnsWhenEnds.inside {fuel : ℕ} (hrest : ReturnsWhenEnds arg data fuel) {p : ℤ} {t t' : Zippa}
    (hp : -2 ^ 31 ≤ p ∧ p < 2 ^ 31) :
    returns (if p < data.length then (processZipFile arg data fuel p).run t else .ok () t') = true ↔
      ∀ q, inside data p = some q → Ends (nextAt data) (Fits data) fuel q := by
  unfold CaptureHPC.inside
  split_ifs with hlt
  · rw [hrest p t hp.1 hp.2]
    exact ⟨fun hends q hq => Option.some.inj hq ▸ hends, fun hall => hall p rfl⟩
  · exact ⟨fun _ q hq => hq.elim, fun _ => rfl⟩

section At

variable {fuel o : ℕ} (hdata : data.length < 2 ^ 31) (h : o + 4 ≤ data.length)
  (hrest : ReturnsWhenEnds arg data fuel)
include hdata h hrest

theorem returns_local (hlocal : slice o 4 data = localSignature) :
    returns ((processZipFile arg data (fuel + 1) o).run z) = true ↔
      Fits data o ∧ ∀ p, nextAt data o = some p → Ends (nextAt data) (Fits data) fuel p := by
  have hz : ({ z with lastOffset := o } : Zippa).lastOffset = o := rfl
  rw [process_run hdata h, if_pos hlocal, Fits_natCast h, nextAt_natCast h, if_pos hlocal]
  by_cases hfits : o + 30 ≤ data.length
  · have hheader : HeaderFits data o := ⟨fun _ => hfits,
      fun hc => absurd (hc.symm.trans hlocal) centralSignature_ne_local,
      fun he => absurd (he.symm.trans hlocal) endSignature_ne_local⟩
    rw [processLocal_run hdata hz hfits, hrest.inside (localNext_int o), iff_true_intro hheader, true_and]
  · have hnot : returns ((processLocal arg data (processZipFile arg data fuel) o).run { z with lastOffset := o }) =
        false := by
      rcases lt_or_ge (o + 30) (2 ^ 31) with hint | hint
      · rw [processLocal_short hz hint (by omega)]
        rfl
      · exact (processLocal_overflow hz (by omega) hint).not_returns
    rw [hnot]
    exact ⟨fun hfalse => Bool.noConfusion hfalse, fun hheader => absurd (hheader.1.localEntry hlocal) hfits⟩

theorem returns_central (hcentral : slice o 4 data = centralSignature) :
    returns ((processZipFile arg data (fuel + 1) o).run z) = true ↔
      Fits data o ∧ ∀ p, nextAt data o = some p → Ends (nextAt data) (Fits data) fuel p := by
  have hlocal : slice o 4 data ≠ localSignature := fun hl => centralSignature_ne_local (hcentral.symm.trans hl)
  rw [process_run hdata h, if_neg hlocal, if_pos hcentral, Fits_natCast h, nextAt_natCast h, if_neg hlocal,
    if_pos hcentral]
  by_cases hfits : o + 34 ≤ data.length
  · have hheader : HeaderFits data o := ⟨fun hl => absurd hl hlocal, fun _ => hfits,
      fun he => absurd (he.symm.trans hcentral) endSignature_ne_central⟩
    rw [processCentral_run hdata hfits, hrest.inside (centralNext_int o), iff_true_intro hheader, true_and]
  · have hnot : returns ((processCentral arg data (processZipFile arg data fuel) o).run { z with lastOffset := o }) =
        false :=
      processCentral_short hdata (by omega) (Nat.lt_of_not_le hfits) fun _ _ => not_returns_negative
    rw [hnot]
    exact ⟨fun hfalse => Bool.noConfusion hfalse, fun hheader => absurd (hheader.1.central hcentral) hfits⟩

omit hrest in
theorem returns_end (hend : slice o 4 data = endSignature) :
    returns ((processZipFile arg data (fuel + 1) o).run z) = true ↔
      Fits data o ∧ ∀ p, nextAt data o = some p → Ends (nextAt data) (Fits data) fuel p := by
  have hlocal : slice o 4 data ≠ localSignature := fun hl => endSignature_ne_local (hend.symm.trans hl)
  have hcentral : slice o 4 data ≠ centralSignature := fun hc => endSignature_ne_central (hend.symm.trans hc)
  have hz : ({ z with lastOffset := o } : Zippa).lastOffset = o := rfl
  rw [process_run hdata h, if_neg hlocal, if_neg hcentral, if_pos hend, Fits_natCast h, nextAt_natCast h,
    if_neg hlocal, if_neg hcentral]
  have hlast : HeaderFits data o ↔ (o + 22 ≤ data.length ∨ o + 20 < 2 ^ 31 ∧ 2 ^ 31 ≤ o + 22) :=
    ⟨fun hheader => hheader.last hend, fun hfits => ⟨fun hl => absurd hl hlocal, fun hc => absurd hc hcentral,
      fun _ => hfits⟩⟩
  have hnone : ∀ p, none = some p → Ends (nextAt data) (Fits data) fuel p := fun p hp =>
    (Option.some_ne_none p hp.symm).elim
  rw [hlast, and_iff_left hnone]
  by_cases hfits : o + 22 ≤ data.length
  · rw [processEnd_run hdata hfits]
    exact ⟨fun _ => .inl hfits, fun _ => rfl⟩
  · by_cases hover : o + 20 < 2 ^ 31 ∧ 2 ^ 31 ≤ o + 22
    · exact ⟨fun _ => .inr hover, fun _ => processEnd_overflow hz hover.1 hover.2⟩
    · rw [processEnd_short (by omega) (by omega) (by omega)]
      exact ⟨fun hfalse => Bool.noConfusion hfalse, fun hor => absurd hor (by tauto)⟩

theorem returns_succ_natCast :
    returns ((processZipFile arg data (fuel + 1) o).run z) = true ↔
      Fits data o ∧ ∀ p, nextAt data o = some p → Ends (nextAt data) (Fits data) fuel p := by
  by_cases hlocal : slice o 4 data = localSignature
  · exact returns_local hdata h hrest hlocal
  · by_cases hcentral : slice o 4 data = centralSignature
    · exact returns_central hdata h hrest hcentral
    · by_cases hend : slice o 4 data = endSignature
      · exact returns_end hdata h hend
      · -- no signature: the processing stops
        rw [process_run hdata h, if_neg hlocal, if_neg hcentral, if_neg hend, Fits_natCast h, nextAt_natCast h,
          if_neg hlocal, if_neg hcentral]
        exact ⟨fun _ => ⟨⟨fun hl => absurd hl hlocal, fun hc => absurd hc hcentral, fun he => absurd he hend⟩,
          fun p hp => (Option.some_ne_none p hp.symm).elim⟩, fun _ => rfl⟩

end At

/-! ## The recursion -/

theorem process_ends (hdata : data.length < 2 ^ 31) (fuel : ℕ) : ReturnsWhenEnds arg data fuel := by
  induction fuel with
  | zero => exact fun o z _ _ => ⟨fun hfalse => Bool.noConfusion hfalse, fun hends => hends.elim⟩
  | succ fuel ih =>
    intro o z ho ho'
    by_cases hroom : o + 4 ≤ data.length
    · rcases lt_or_ge o 0 with hneg | hnonneg
      · rw [not_returns_negative hneg ho hroom]
        exact ⟨fun hfalse => Bool.noConfusion hfalse, fun hends => absurd (hends.1 hroom).1 (not_le.2 hneg)⟩
      · lift o to ℕ using hnonneg
        exact returns_succ_natCast hdata (by omega) ih
    · -- no room for a signature
      have hnext : nextAt data o = none := by
        rw [nextAt, if_neg (fun hboth => hroom hboth.2)]
      rw [process_short ho' ho (by omega), Ends, hnext]
      exact ⟨fun _ => ⟨fun hle => absurd hle hroom, fun p hp => (Option.some_ne_none p hp.symm).elim⟩, fun _ => rfl⟩

/-! ## Why a call does not return -/

/-- The program ends, or it leaves the array, or it runs out of fuel. -/
def Indexed {α : Type} (m : ZippaM α) (z : Zippa) : Prop :=
  ∀ e z', m.run z = .error e z' → e = .outOfFuel ∨ e = .exception .arrayIndexOutOfBounds

theorem Indexed.of_ok {α : Type} {m : ZippaM α} {a : α} {z' : Zippa} (h : m.run z = .ok a z') : Indexed m z := by
  intro e z'' herr
  rw [h] at herr
  cases herr

theorem Indexed.of_error {α : Type} {m : ZippaM α} {z' : Zippa}
    (h : m.run z = .error (.exception .arrayIndexOutOfBounds) z') : Indexed m z := by
  intro e z'' herr
  rw [h] at herr
  cases herr
  exact .inr rfl

theorem Reads.indexed {α β : Type} {m : ZippaM α} {f : α → ZippaM β} (hm : Reads m) (hf : ∀ a, Indexed (f a) z) :
    Indexed (m >>= f) z := by
  rcases hm z with ⟨a, ha⟩ | hfails
  · unfold Indexed
    rw [run_bind_ok ha]
    exact hf a
  · exact .of_error hfails.bind

/-- A repair in front of a program. -/
theorem indexed_behind {c : Prop} [Decidable c] {m : ZippaM Unit} {f : Unit → ZippaM Unit} {z' : Zippa}
    (hm : m.run z = .ok () z') (hf : ∀ t, Indexed (f ()) t) : Indexed (if c then m >>= f else f ()) z := by
  split_ifs
  · unfold Indexed
    rw [run_bind_ok hm]
    exact hf z'
  · exact hf z

/-- **A call that does not return** has read outside of the array, or its recursion has no end. -/
theorem process_error (hdata : data.length < 2 ^ 31) (fuel : ℕ) {o : ℤ} (ho : -2 ^ 31 ≤ o) (ho' : o < 2 ^ 31)
    (z : Zippa) : Indexed (processZipFile arg data fuel o) z := by
  induction fuel generalizing o z with
  | zero =>
    intro e z' herr
    cases herr
    exact .inl rfl
  | succ fuel ih =>
    by_cases hroom : o + 4 ≤ data.length
    · rcases lt_or_ge o 0 with hneg | hnonneg
      · exact .of_error (process_negative hneg ho hroom)
      · lift o to ℕ using hnonneg
        have hz : ({ z with lastOffset := o } : Zippa).lastOffset = o := rfl
        unfold Indexed
        rw [process_run hdata (by omega)]
        split_ifs with hlocal hcentral hend
        · rcases lt_or_ge data.length (o + 30) with hshort | hfits
          · rcases lt_or_ge (o + 30) (2 ^ 31) with hint | hint
            · exact Indexed.of_error (processLocal_short hz hint hshort)
            · exact Indexed.of_error (processLocal_overflow hz (by omega) hint)
          · rw [processLocal_run hdata hz hfits]
            split_ifs with hnext
            · exact ih (localNext_int o).1 (localNext_int o).2 _
            · intro e z' herr
              cases herr
        · change Indexed (processCentral arg data (processZipFile arg data fuel) o) { z with lastOffset := o }
          unfold processCentral
          refine indexed_behind (repairLast_run hz) fun t => ?_
          refine Reads.indexed (readBytes_reads _ _ _) fun n => ?_
          refine Reads.indexed (readBytes_reads _ _ _) fun x => ?_
          refine Reads.indexed (readBytes_reads _ _ _) fun c => ?_
          dsimp only
          split_ifs with hnext
          · exact ih (le_wrap _) (wrap_lt _) t
          · exact Indexed.of_ok rfl
        · change Indexed (processEnd arg data o) { z with lastOffset := o }
          unfold processEnd
          refine indexed_behind (repairLast_run hz) fun t => ?_
          exact Reads.indexed (readBytes_reads _ _ _) fun n => Indexed.of_ok rfl
        · intro e z' herr
          cases herr
    · exact .of_ok (process_short ho' ho (by omega))

/-! ## The whole processing -/

/-- The processing ends, and every index that it reads lies in the array. -/
def Total (arg : String) (data : Bytes) : Prop :=
  ∃ fuel, ∀ e z, (processZipFile arg data fuel 0).run {} = .error e z →
    e ≠ .outOfFuel ∧ e ≠ .exception .arrayIndexOutOfBounds

theorem total_iff_returns (hdata : data.length < 2 ^ 31) :
    Total arg data ↔ ∃ fuel, returns ((processZipFile arg data fuel 0).run {}) = true := by
  constructor
  · rintro ⟨fuel, hfuel⟩
    refine ⟨fuel, ?_⟩
    cases hrun : (processZipFile arg data fuel 0).run {} with
    | ok u z => rfl
    | error e z =>
      obtain ⟨hnot, hnot'⟩ := hfuel e z hrun
      rcases process_error hdata fuel (by decide) (by decide) {} e z hrun with he | he
      · exact absurd he hnot
      · exact absurd he hnot'
  · rintro ⟨fuel, hfuel⟩
    refine ⟨fuel, fun e z hrun => ?_⟩
    rw [hrun] at hfuel
    exact Bool.noConfusion hfuel

/-- **The processing is total** if and only if, along the declared lengths, every header that starts is
complete, no length leads in front of the array, and no place is visited twice. -/
theorem processZipFile_total (arg : String) (data : Bytes) (hdata : data.length < 2 ^ 31) :
    Total arg data ↔ (∀ i p, walk (nextAt data) 0 i = some p → Fits data p) ∧
      ∀ i j p, i < j → walk (nextAt data) 0 i = some p → walk (nextAt data) 0 j ≠ some p := by
  rw [total_iff_returns hdata]
  simp only [process_ends hdata _ _ _ (show -2 ^ 31 ≤ (0 : ℤ) by decide) (show (0 : ℤ) < 2 ^ 31 by decide)]
  -- the places lie between the ends of `int`
  refine ends_iff (Finset.Ico (-2 ^ 31) (2 ^ 31)) fun i p hp _ => ?_
  rw [Finset.mem_Ico]
  cases i with
  | zero =>
    obtain rfl := Option.some.inj hp
    exact ⟨by decide, by decide⟩
  | succ i =>
    obtain ⟨q, -, hq⟩ := Option.bind_eq_some_iff.1 hp
    exact nextAt_int hq

/-- The places are the two files, their records, and the end of the directory. -/
theorem smallArchive_total : Total "upload.zip" smallArchive.bytes := by
  have hwalk (i : ℕ) : walk (nextAt smallArchive.bytes) 0 i = ([0, 33, 65, 112, 159] : List ℤ)[i]? :=
    walk_eq_getElem? (by decide +kernel) (by decide +kernel) i
  have hheader : ∀ p ∈ ([0, 33, 65, 112, 159] : List ℤ), 0 ≤ p ∧
      (slice p.toNat 4 smallArchive.bytes = localSignature → p.toNat + 30 ≤ smallArchive.bytes.length) ∧
      (slice p.toNat 4 smallArchive.bytes = centralSignature → p.toNat + 34 ≤ smallArchive.bytes.length) ∧
      p.toNat + 22 ≤ smallArchive.bytes.length := by decide +kernel
  refine (processZipFile_total "upload.zip" smallArchive.bytes length_smallArchive_lt).2 ⟨fun i p h _ => ?_,
    fun i j p hij hi hj => ?_⟩
  · rw [hwalk] at h
    obtain ⟨hnonneg, hlocal, hcentral, hend⟩ := hheader p (List.mem_of_getElem? h)
    exact ⟨hnonneg, hlocal, hcentral, fun _ => .inl hend⟩
  · rw [hwalk] at hi hj
    have hnodup : ([0, 33, 65, 112, 159] : List ℤ).Nodup := by decide
    exact hij.ne ((List.getElem?_inj (List.getElem?_eq_some_iff.1 hi).1 hnodup).1 (hi.trans hj.symm))

/-- Four bytes of an upload are enough: the header that they start is read behind the end of the array. -/
theorem signature_leaves_array : ¬ Total "upload.zip" localSignature := by
  rintro ⟨fuel, hfuel⟩
  cases fuel with
  | zero => exact (hfuel .outOfFuel {} rfl).1 rfl
  | succ fuel =>
    have hrun : (processZipFile "upload.zip" localSignature (fuel + 1) ((0 : ℕ) : ℤ)).run {} =
        .error (.exception .arrayIndexOutOfBounds)
          { files := [("upload.zip" ++ "a", repaired localSignature 0 [])] } := by
      have hlocal : slice 0 4 localSignature = localSignature := by decide
      rw [process_run (by decide) (by decide), if_pos hlocal]
      exact processLocal_short rfl (by decide) (by decide)
    exact (hfuel _ _ hrun).2 rfl

end CaptureHPC
