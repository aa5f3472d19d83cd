import CaptureHPC.Proof.FileUploader
import CaptureHPC.Spec.ClientFileReceiver

/-!
# Where an accepted part lands

The receiver reads the start of a part only to compute its size.

* `receive_eq`: the file is what the accepted parts hold, one behind the other.
* `receive_lands`: so the parts are found at their starts, whatever they hold, if and only if each
  starts where the accepted ones before it end (`InOrder`).
* `receiveFilePart_isSome`: a part throws where the event thread's model says so.
-/

namespace CaptureHPC

namespace ClientFileReceiver

variable {decodeBuffer : String → Option (List UInt8)}

/-- A part whose size is right. -/
structure AcceptedPart where
  first : Int32
  last : Int32
  bytes : List UInt8
  deriving DecidableEq

/-- What is written for a part. -/
def accepted (decodeBuffer : String → Option (List UInt8)) (p : FilePart) : Option AcceptedPart := do
  let first ← parseInt p.partStart
  let last ← parseInt p.partEnd
  let buffer ← decodeBuffer p.data
  if p.encoding = some "base64" ∧ (buffer.length : ℤ) = (last - first).toInt then some ⟨first, last, buffer⟩
  else none

/-- The accepted parts, in order. -/
def acceptedParts (decodeBuffer : String → Option (List UInt8)) (ps : List FilePart) : List AcceptedPart :=
  ps.filterMap (accepted decodeBuffer)

/-- The file holds the part's bytes from its start to its end. -/
structure AcceptedPart.Lands (a : AcceptedPart) (file : List UInt8) : Prop where
  size : a.last.toInt - a.first.toInt = a.bytes.length
  bytes : a.bytes ≠ [] → 0 ≤ a.first.toInt ∧ (file.drop a.first.toInt.toNat).take a.bytes.length = a.bytes

/-- Each part starts where the ones before it end, `n` for the first. -/
def Follows : ℕ → List AcceptedPart → Prop
  | _, [] => True
  | n, a :: L => a.last.toInt - a.first.toInt = a.bytes.length ∧ (a.bytes ≠ [] → a.first.toInt = n) ∧
      Follows (n + a.bytes.length) L

/-- The accepted parts come in the order of the file. -/
def InOrder (decodeBuffer : String → Option (List UInt8)) (ps : List FilePart) : Prop :=
  Follows 0 (acceptedParts decodeBuffer ps)

/-- Every accepted part is where its bounds say. -/
def Lands (decodeBuffer : String → Option (List UInt8)) (file : List UInt8) (ps : List FilePart) : Prop :=
  ∀ a ∈ acceptedParts decodeBuffer ps, a.Lands file

/-! ## The stream -/

/-- The numbers and the encoding of a part are there, so it raises no exception. -/
def Completes (p : FilePart) : Prop :=
  (parseInt p.partStart).isSome ∧ (parseInt p.partEnd).isSome ∧ p.encoding.isSome

instance (p : FilePart) : Decidable (Completes p) := inferInstanceAs (Decidable (_ ∧ _ ∧ _))

/-- **One part.** -/
theorem receiveFilePart_run (file : List UInt8) (p : FilePart) : receiveFilePart decodeBuffer file p =
    if Completes p then some (file ++ (accepted decodeBuffer p).toList.flatMap AcceptedPart.bytes) else none := by
  unfold receiveFilePart accepted Completes
  obtain hstart | ⟨first, hstart⟩ := Option.eq_none_or_eq_some (parseInt p.partStart)
  · simp [hstart]
  obtain hend | ⟨last, hend⟩ := Option.eq_none_or_eq_some (parseInt p.partEnd)
  · simp [hend]
  obtain henc | ⟨enc, henc⟩ := Option.eq_none_or_eq_some p.encoding
  · simp [henc]
  simp only [hstart, hend, henc, Option.bind_eq_bind, Option.bind_some, Option.isSome_some, and_self, if_true]
  obtain hdecode | ⟨buffer, hdecode⟩ := Option.eq_none_or_eq_some (decodeBuffer p.data)
  · simp [hdecode]
  by_cases hbase : enc = "base64"
  · by_cases hsize : (buffer.length : ℤ) = (last - first).toInt
    · simp [hdecode, hbase, hsize]
    · simp only [hdecode, hbase, hsize, if_true, if_false, Option.bind_some, and_false, Option.toList_none,
        List.flatMap_nil, List.append_nil]
  · simp [hbase]

/-- The parts from some place on. -/
theorem foldlM_run (ps : List FilePart) (file : List UInt8) : ps.foldlM (receiveFilePart decodeBuffer) file =
    if ∀ p ∈ ps, Completes p then some (file ++ (acceptedParts decodeBuffer ps).flatMap AcceptedPart.bytes) else none := by
  induction ps generalizing file with
  | nil => simp [acceptedParts]
  | cons p ps ih =>
    rw [List.foldlM_cons, receiveFilePart_run]
    by_cases hp : Completes p
    · have hparts : (acceptedParts decodeBuffer (p :: ps)).flatMap AcceptedPart.bytes =
          (accepted decodeBuffer p).toList.flatMap AcceptedPart.bytes ++
            (acceptedParts decodeBuffer ps).flatMap AcceptedPart.bytes := by
        rw [acceptedParts, List.filterMap_cons]
        cases accepted decodeBuffer p with
        | none => rfl
        | some a => simp [acceptedParts]
      rw [if_pos hp, Option.bind_eq_bind, Option.bind_some, ih, hparts, List.append_assoc]
      simp only [List.forall_mem_cons, hp, true_and]
    · rw [if_neg hp, if_neg fun hall => hp (hall p List.mem_cons_self)]
      rfl

/-- **The file is what was accepted.** -/
theorem receive_eq (ps : List FilePart) : receive decodeBuffer ps =
    if ∀ p ∈ ps, Completes p then some ((acceptedParts decodeBuffer ps).flatMap AcceptedPart.bytes) else none :=
  foldlM_run ps []

/-- A part throws where the event thread's model says so. -/
theorem receiveFilePart_isSome (file : List UInt8) (p : FilePart) : (receiveFilePart decodeBuffer file p).isSome =
    EventThread.receiveFilePart decodeBuffer true p.partStart p.partEnd p.encoding p.data := by
  obtain ⟨partStart, partEnd, encoding, data⟩ := p
  unfold receiveFilePart EventThread.receiveFilePart
  cases hstart : parseInt partStart with
  | none => rfl
  | some first =>
    cases hend : parseInt partEnd with
    | none => rfl
    | some last =>
      cases encoding with
      | none => rfl
      | some enc =>
        simp only [Option.bind_eq_bind, Option.bind_some]
        by_cases henc : enc = "base64"
        · rw [if_pos henc, if_pos henc]
          cases decodeBuffer data with
          | none => rfl
          | some buffer =>
            by_cases hsize : (buffer.length : ℤ) = (last - first).toInt
            · simp [hsize]
            · simp only [hsize, if_false, Option.isSome_some]
        · rw [if_neg henc, if_neg henc]
          rfl

/-! ## Parts in order -/

theorem lands_of_follows {L : List AcceptedPart} {before : List UInt8} (h : Follows before.length L) :
    ∀ a ∈ L, a.Lands (before ++ L.flatMap AcceptedPart.bytes) := by
  induction L generalizing before with
  | nil => simp
  | cons a L ih =>
    obtain ⟨hsize, hfirst, hrest⟩ := h
    intro b hb
    rw [List.flatMap_cons, ← List.append_assoc]
    rcases List.mem_cons.1 hb with rfl | hb
    · refine ⟨hsize, fun hne => ⟨by rw [hfirst hne]; exact Int.natCast_nonneg _, ?_⟩⟩
      rw [hfirst hne, Int.toNat_natCast, List.append_assoc, List.drop_left, List.take_left]
    · rw [← List.length_append] at hrest
      exact ih hrest b hb

/-! ## Parts out of order -/

/-- The same bounds with other bytes. -/
def AcceptedPart.SameBounds (a b : AcceptedPart) : Prop :=
  b.first = a.first ∧ b.last = a.last ∧ b.bytes.length = a.bytes.length

/-- The part with zeros. -/
def AcceptedPart.zeros (a : AcceptedPart) : AcceptedPart := { a with bytes := List.replicate a.bytes.length 0 }

theorem sameBounds_zeros (a : AcceptedPart) : a.SameBounds a.zeros := ⟨rfl, rfl, List.length_replicate⟩

theorem flatMap_zeros (L : List AcceptedPart) : ∃ n, (L.map AcceptedPart.zeros).flatMap AcceptedPart.bytes =
    List.replicate n 0 := by
  induction L with
  | nil => exact ⟨0, rfl⟩
  | cons a L ih =>
    obtain ⟨n, hn⟩ := ih
    refine ⟨a.bytes.length + n, ?_⟩
    rw [List.map_cons, List.flatMap_cons, hn, AcceptedPart.zeros, List.replicate_append_replicate]

/-- A one among zeros is found at one place only. -/
theorem one_at {n m p : ℕ} (h : (List.replicate n (0 : UInt8) ++ 1 :: List.replicate m 0)[p]? = some 1) : p = n := by
  by_contra hne
  rcases Nat.lt_or_gt_of_ne hne with hlt | hgt
  · rw [List.getElem?_append_left (by rwa [List.length_replicate]), List.getElem?_replicate_of_lt hlt] at h
    cases h
  · obtain ⟨k, rfl⟩ := Nat.exists_eq_add_of_lt hgt
    rw [List.getElem?_append_right (by rw [List.length_replicate]; omega), List.length_replicate,
      show n + k + 1 - n = k + 1 by omega, List.getElem?_cons_succ, List.getElem?_replicate] at h
    split at h <;> cases h

theorem not_lands_of_not_follows {L : List AcceptedPart} {n : ℕ} (h : ¬Follows n L) :
    ∃ L', List.Forall₂ AcceptedPart.SameBounds L L' ∧
      ∃ a ∈ L', ¬a.Lands (List.replicate n 0 ++ L'.flatMap AcceptedPart.bytes) := by
  induction L generalizing n with
  | nil => exact (h trivial).elim
  | cons a L ih =>
    by_cases hsize : a.last.toInt - a.first.toInt = a.bytes.length
    · by_cases hfirst : a.bytes ≠ [] → a.first.toInt = n
      · -- the part is in order, so one behind it is not
        obtain ⟨L', hL', b, hb, hnot⟩ := ih (n := n + a.bytes.length) fun hrest => h ⟨hsize, hfirst, hrest⟩
        refine ⟨a.zeros :: L', .cons (sameBounds_zeros a) hL', b, List.mem_cons_of_mem _ hb, ?_⟩
        rw [List.flatMap_cons, AcceptedPart.zeros, ← List.append_assoc, List.replicate_append_replicate]
        exact hnot
      · -- a one at the start of this part, and zeros elsewhere
        obtain ⟨hne, hfirst⟩ := Classical.not_imp.1 hfirst
        obtain ⟨m, hm⟩ := flatMap_zeros L
        have hlen : a.bytes.length - 1 + 1 = a.bytes.length := Nat.sub_add_cancel (List.length_pos_iff.2 hne)
        set one : AcceptedPart := { a with bytes := 1 :: List.replicate (a.bytes.length - 1) 0 } with hone
        have hsame : a.SameBounds one := ⟨rfl, rfl, by rw [hone, List.length_cons, List.length_replicate, hlen]⟩
        refine ⟨one :: L.map AcceptedPart.zeros, .cons hsame ?_, one, List.mem_cons_self, fun hlands => hfirst ?_⟩
        · exact List.forall₂_map_right_iff.2 (List.forall₂_same.2 fun b _ => sameBounds_zeros b)
        · obtain ⟨hpositive, hbytes⟩ := hlands.bytes (List.cons_ne_nil _ _)
          have hfile : (one :: L.map AcceptedPart.zeros).flatMap AcceptedPart.bytes =
              1 :: List.replicate (a.bytes.length - 1 + m) 0 := by
            rw [List.flatMap_cons, hm, hone, List.cons_append, List.replicate_append_replicate]
          have hhead := congrArg (·[0]?) hbytes
          rw [hfile] at hhead
          simp only [hone, List.length_cons, List.getElem?_take_of_lt (Nat.succ_pos _), List.getElem?_drop,
            Nat.add_zero, List.getElem?_cons_zero] at hhead
          have hplace := one_at hhead
          change a.first.toInt.toNat = n at hplace
          change 0 ≤ a.first.toInt at hpositive
          omega
    · refine ⟨a :: L, ?_, a, List.mem_cons_self, fun hlands => hsize hlands.size⟩
      exact List.forall₂_same.2 fun b _ => ⟨rfl, rfl, rfl⟩

/-! ## The messages -/

/-- The same part with other bytes: it is accepted if the other one is. -/
def SameBounds (decodeBuffer : String → Option (List UInt8)) (p q : FilePart) : Prop :=
  q = { p with data := q.data } ∧ (accepted decodeBuffer q).isSome = (accepted decodeBuffer p).isSome

theorem SameBounds.completes {p q : FilePart} (h : SameBounds decodeBuffer p q) : Completes q ↔ Completes p := by
  rw [h.1]
  rfl

theorem accepted_eq_some {p : FilePart} {a : AcceptedPart} : accepted decodeBuffer p = some a ↔
    parseInt p.partStart = some a.first ∧ parseInt p.partEnd = some a.last ∧ decodeBuffer p.data = some a.bytes ∧
      p.encoding = some "base64" ∧ (a.bytes.length : ℤ) = (a.last - a.first).toInt := by
  obtain ⟨first, last, bytes⟩ := a
  unfold accepted
  constructor
  · intro h
    simp only [Option.bind_eq_bind, Option.bind_eq_some_iff] at h
    obtain ⟨first', hfirst, last', hlast, buffer, hbuffer, h⟩ := h
    split at h
    · rename_i hgood
      obtain ⟨rfl, rfl, rfl⟩ := AcceptedPart.mk.inj (Option.some.inj h)
      exact ⟨hfirst, hlast, hbuffer, hgood⟩
    · cases h
  · rintro ⟨hfirst, hlast, hbytes, hgood⟩
    rw [hfirst, hlast, hbytes]
    simp only [Option.bind_eq_bind, Option.bind_some]
    rw [if_pos hgood]

theorem acceptedParts_cons (p : FilePart) (ps : List FilePart) : acceptedParts decodeBuffer (p :: ps) =
    (accepted decodeBuffer p).toList ++ acceptedParts decodeBuffer ps := by
  rw [acceptedParts, List.filterMap_cons]
  cases accepted decodeBuffer p <;> rfl

/-- The accepted bytes can be exchanged for any others of the same lengths. -/
theorem exchange (hdecode : ∀ bytes, ∃ text, decodeBuffer text = some bytes) {ps : List FilePart}
    {L : List AcceptedPart} (h : List.Forall₂ AcceptedPart.SameBounds (acceptedParts decodeBuffer ps) L) :
    ∃ qs, List.Forall₂ (SameBounds decodeBuffer) ps qs ∧ acceptedParts decodeBuffer qs = L := by
  induction ps generalizing L with
  | nil => exact ⟨[], .nil, by cases h; rfl⟩
  | cons p ps ih =>
    rw [acceptedParts_cons] at h
    cases hp : accepted decodeBuffer p with
    | none =>
      rw [hp] at h
      obtain ⟨qs, hqs, hL⟩ := ih h
      refine ⟨p :: qs, .cons ⟨rfl, rfl⟩ hqs, ?_⟩
      rw [acceptedParts_cons, hp, hL]
      rfl
    | some a =>
      rw [hp] at h
      obtain _ | ⟨hb, hrest⟩ := h
      rename_i b L'
      obtain ⟨qs, hqs, hL⟩ := ih hrest
      obtain ⟨hfirst, hlast, -, hencoding, hsize⟩ := accepted_eq_some.1 hp
      obtain ⟨text, htext⟩ := hdecode b.bytes
      have hq : accepted decodeBuffer { p with data := text } = some b := by
        refine accepted_eq_some.2 ⟨?_, ?_, htext, hencoding, ?_⟩
        · rw [hb.1]
          exact hfirst
        · rw [hb.2.1]
          exact hlast
        · rw [hb.1, hb.2.1, hb.2.2, hsize]
      refine ⟨{ p with data := text } :: qs, .cons ⟨rfl, ?_⟩ hqs, ?_⟩
      · rw [hq, hp]
        rfl
      · rw [acceptedParts_cons, hq, hL]
        rfl

/-- Parts with the same bounds are accepted with the same bounds. -/
theorem sameBounds_accepted {ps qs : List FilePart} (h : List.Forall₂ (SameBounds decodeBuffer) ps qs) :
    List.Forall₂ AcceptedPart.SameBounds (acceptedParts decodeBuffer ps) (acceptedParts decodeBuffer qs) := by
  induction h with
  | nil => exact .nil
  | @cons p q ps qs hpq _ ih =>
    rw [acceptedParts_cons, acceptedParts_cons]
    cases hp : accepted decodeBuffer p with
    | none =>
      have hq := hpq.2
      rw [hp, Option.isSome_none, Option.isSome_eq_false_iff, Option.isNone_iff_eq_none] at hq
      rw [hq]
      exact ih
    | some a =>
      have hq := hpq.2
      rw [hp, Option.isSome_some] at hq
      obtain ⟨b, hb⟩ := Option.isSome_iff_exists.1 hq
      obtain ⟨hfirst, hlast, -, -, hsize⟩ := accepted_eq_some.1 hp
      obtain ⟨hfirst', hlast', -, -, hsize'⟩ := accepted_eq_some.1 hb
      rw [hpq.1] at hfirst' hlast'
      have hf : b.first = a.first := Option.some.inj (hfirst'.symm.trans hfirst)
      have hl : b.last = a.last := Option.some.inj (hlast'.symm.trans hlast)
      rw [hf, hl, ← hsize] at hsize'
      rw [hb]
      exact .cons ⟨hf, hl, Int.ofNat.inj hsize'⟩ ih

theorem follows_congr {L L' : List AcceptedPart} (h : List.Forall₂ AcceptedPart.SameBounds L L') {n : ℕ}
    (hL : Follows n L) : Follows n L' := by
  induction h generalizing n with
  | nil => trivial
  | @cons a b L L' hab _ ih =>
    obtain ⟨hsize, hfirst, hrest⟩ := hL
    obtain ⟨hf, hl, hlen⟩ := hab
    refine ⟨by rw [hf, hl, hlen, hsize], fun hne => ?_, by rw [hlen]; exact ih hrest⟩
    rw [hf]
    refine hfirst fun hempty => hne (List.length_eq_zero_iff.1 ?_)
    rw [hlen, hempty, List.length_nil]

theorem completes_congr {ps qs : List FilePart} (h : List.Forall₂ (SameBounds decodeBuffer) ps qs)
    (hps : ∀ p ∈ ps, Completes p) : ∀ q ∈ qs, Completes q := by
  induction h with
  | nil => simp
  | cons hpq _ ih =>
    rw [List.forall_mem_cons] at hps ⊢
    exact ⟨hpq.completes.2 hps.1, ih hps.2⟩

/-- **Whatever the accepted parts hold, they land where their bounds say if and only if each starts where
the ones before it end.** -/
theorem receive_lands (hdecode : ∀ bytes, ∃ text, decodeBuffer text = some bytes) (ps : List FilePart)
    (hps : (receive decodeBuffer ps).isSome) :
    (∀ qs file, List.Forall₂ (SameBounds decodeBuffer) ps qs → receive decodeBuffer qs = some file →
      Lands decodeBuffer file qs) ↔ InOrder decodeBuffer ps := by
  have hcompletes : ∀ p ∈ ps, Completes p := by
    by_contra hnot
    rw [receive_eq, if_neg hnot] at hps
    cases hps
  constructor
  · intro hall
    by_contra hnot
    obtain ⟨L, hL, a, ha, hmisses⟩ := not_lands_of_not_follows hnot
    obtain ⟨qs, hqs, rfl⟩ := exchange hdecode hL
    have hfile := @receive_eq decodeBuffer qs
    rw [if_pos (completes_congr hqs hcompletes)] at hfile
    exact hmisses (hall qs _ hqs hfile a ha)
  · intro horder qs file hqs hfile
    rw [receive_eq, if_pos (completes_congr hqs hcompletes), Option.some.injEq] at hfile
    have hfollows := follows_congr (sameBounds_accepted hqs) horder
    rw [← hfile]
    exact @lands_of_follows _ [] hfollows

/-- Decoding of a text of base64 letters. -/
def decodeText (text : String) : Option (List UInt8) :=
  Cpp.Base64.decode (text.toList.map fun c => UInt8.ofNat c.toNat)

theorem decodeText_surjective (bytes : List UInt8) : ∃ text, decodeText text = some bytes := by
  refine ⟨String.ofList ((Cpp.Base64.encode bytes).map fun b => Char.ofNat b.toNat), ?_⟩
  have hbyte : ∀ b : UInt8, UInt8.ofNat (Char.ofNat b.toNat).toNat = b := by
    intro b
    have hvalid : b.toNat.isValidChar := .inl (Nat.lt_of_lt_of_le b.toNat_lt (by decide))
    rw [Char.toNat_ofNat, if_pos hvalid, UInt8.ofNat_toNat]
  rw [decodeText, String.toList_ofList, List.map_map, show (fun c : Char => UInt8.ofNat c.toNat) ∘
    (fun b : UInt8 => Char.ofNat b.toNat) = id from funext hbyte, List.map_id, Cpp.Base64.decode_text]

/-- A part with the wrong size, and the next one, which starts behind it. -/
def shifted : List FilePart :=
  [⟨some "0", some "3", some "base64", "UEs="⟩, ⟨some "3", some "6", some "base64", "UEsD"⟩]

theorem shifted_misses : ∃ file, receive decodeText shifted = some file ∧ ¬Lands decodeText file shifted := by
  have hparts : acceptedParts decodeText shifted = [⟨3, 6, [0x50, 0x4B, 3]⟩] := by decide
  have hfile : receive decodeText shifted = some [0x50, 0x4B, 3] := by decide
  refine ⟨[0x50, 0x4B, 3], hfile, fun hlands => ?_⟩
  have hpart := hlands ⟨3, 6, [0x50, 0x4B, 3]⟩ (hparts ▸ List.mem_cons_self)
  have hbytes := (hpart.bytes (List.cons_ne_nil _ _)).2
  revert hbytes
  decide

/-- A part that is rejected, between two that follow each other. -/
def ordered : List FilePart :=
  [⟨some "0", some "3", some "base64", "UEsD"⟩, ⟨some "3", some "9", some "base64", "UEs="⟩,
    ⟨some "3", some "5", some "base64", "UEs="⟩]

theorem ordered_lands : ((∀ qs file, List.Forall₂ (SameBounds decodeText) ordered qs →
    receive decodeText qs = some file → Lands decodeText file qs) ↔ InOrder decodeText ordered) ∧
      InOrder decodeText ordered := by
  have hparts : acceptedParts decodeText ordered = [⟨0, 3, [0x50, 0x4B, 3]⟩, ⟨3, 5, [0x50, 0x4B]⟩] := by
    decide
  refine ⟨receive_lands decodeText_surjective ordered (by decide), ?_⟩
  rw [InOrder, hparts]
  exact ⟨by decide, fun _ => by decide, by decide, fun _ => by decide, trivial⟩

end ClientFileReceiver

end CaptureHPC
