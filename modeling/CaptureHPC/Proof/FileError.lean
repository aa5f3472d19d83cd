import CaptureHPC.Proof.FileUploader

/-!
# A part that is asked for again

The handler of file-error passes the end of the range to `sendFilePart` as a size, and does nothing
for a range that starts at zero.

* `onReceiveFileErrorEvent_run`: what it does for a range.
* `onReceiveFileErrorEvent_resends`: so it resends a range if and only if the file is still open and the
  range is a proper end of it, below `2 ^ 31`.
-/

namespace CaptureHPC.Cpp.FileUploader

/-! ## Reading the range -/

theorem toString_ascii (n : ℤ) : ∀ c ∈ (toString n).toList, c.toNat < 0x80 := by
  have hdigits : ∀ m, ∀ c ∈ Nat.toDigits 10 m, c.toNat < 0x80 := by
    intro m c hc
    have hdigit : c.isDigit = true := Nat.isDigit_of_mem_toDigits (by decide) (by decide) hc
    simp only [Char.isDigit, Bool.and_eq_true, decide_eq_true_eq, UInt32.le_iff_toNat_le] at hdigit
    exact lt_of_le_of_lt hdigit.2 (by decide)
  cases n with
  | ofNat m =>
    have hs : (toString (Int.ofNat m)).toList = Nat.toDigits 10 m := by
      simp [toString, Int.repr, Nat.repr]
    rw [hs]
    exact hdigits m
  | negSucc m =>
    have hs : (toString (Int.negSucc m)).toList = '-' :: Nat.toDigits 10 (m + 1) := by
      simp [toString, Int.repr, Nat.repr]
    rw [hs, List.forall_mem_cons]
    exact ⟨by decide, hdigits _⟩

theorem lexicalCast_toString (n : ℤ) : lexicalCast (units (toString n).toList) = parseInt (some (toString n)) := by
  rw [lexicalCast, ofUnits_units, if_pos, String.ofList_toList]
  exact List.all_eq_true.2 fun c hc => decide_eq_true (toString_ascii n c hc)

theorem parseInt_toString (n : ℕ) :
    parseInt (some (toString (n : ℤ))) = if n < 2 ^ 31 then some (Int32.ofNat n) else none := by
  rw [parseInt, Option.bind_some, parseDecimal_toString, Option.bind_some]
  by_cases hn : n < 2 ^ 31
  · rw [if_pos hn, if_pos (by omega), Int32.ofInt_eq_ofNat]
  · rw [if_neg hn, if_neg (by omega)]

theorem lexicalCast_decimal (n : ℕ) :
    lexicalCast (decimal n) = if n < 2 ^ 31 then some (Int32.ofNat n) else none :=
  (lexicalCast_toString n).trans (parseInt_toString n)

/-- The attributes of a file-error for the range from `first` to `last`. -/
def fileError (others : List (WString × WString)) (first last : ℕ) : List (WString × WString) :=
  others ++ [(lit "part-start", decimal first), (lit "part-end", decimal last)]

theorem errorRange_others {others : List (WString × WString)}
    (h : ∀ a ∈ others, a.1 ≠ lit "part-start" ∧ a.1 ≠ lit "part-end") (atts : List (WString × WString))
    (range : Int32 × Int32) : errorRange (others ++ atts) range = errorRange atts range := by
  induction others with
  | nil => rfl
  | cons a others ih =>
    obtain ⟨hstart, hend⟩ := h a List.mem_cons_self
    rw [List.cons_append, errorRange, if_neg hstart, if_neg hend]
    exact ih fun x hx => h x (List.mem_cons_of_mem _ hx)

theorem errorRange_fileError {others : List (WString × WString)}
    (h : ∀ a ∈ others, a.1 ≠ lit "part-start" ∧ a.1 ≠ lit "part-end") {first last : ℕ} (hle : first ≤ last) :
    errorRange (fileError others first last) (0, 0) =
      if last < 2 ^ 31 then some (Int32.ofNat first, Int32.ofNat last) else none := by
  have hne : lit "part-end" ≠ lit "part-start" := by decide
  rw [fileError, errorRange_others h, errorRange, if_pos rfl, lexicalCast_decimal]
  by_cases hlast : last < 2 ^ 31
  · rw [if_pos (by omega), Option.bind_some, errorRange, if_neg hne, if_pos rfl, lexicalCast_decimal, if_pos hlast,
      Option.bind_some, errorRange, if_pos hlast]
  · rw [if_neg hlast]
    by_cases hfirst : first < 2 ^ 31
    · rw [if_pos hfirst, Option.bind_some, errorRange, if_neg hne, if_pos rfl, lexicalCast_decimal, if_neg hlast]
      rfl
    · rw [if_neg hfirst]
      rfl

/-! ## What is sent -/

variable {content : List UInt8} {s : FileUploader}

/-- The bytes that are read for a range: the end of the range counts as a size. -/
def bytesRead (content : List UInt8) (first last : ℕ) : List UInt8 := (content.drop first).take last

/-- **What the handler sends.** -/
theorem onReceiveFileErrorEvent_run {others : List (WString × WString)}
    (hothers : ∀ a ∈ others, a.1 ≠ lit "part-start" ∧ a.1 ≠ lit "part-end") (hc : s.pFileStream.content = content)
    {first last : ℕ} (hlt : first < last) (hle : last ≤ content.length) (hlast : last < 2 ^ 31) :
    ∃ s', s.onReceiveFileErrorEvent (fileError others first last) = some s' ∧
      s'.sent = s.sent ++ (if s.fileOpened = true ∧ 0 < first then
        [.element (partElement s.fileName (UInt32.ofNat first) (bytesRead content first last))] else []) := by
  have hfirst : first < 2 ^ 31 := by omega
  have hzero : ∀ n : ℕ, n < 2 ^ 31 → (Int32.ofNat n ≠ 0 ↔ 0 < n) := by
    intro n hn
    rw [Ne, ← Int32.toInt_inj, Int32.toInt_ofNat_of_lt hn, Int32.toInt_zero]
    omega
  have hsize : (UInt32.ofNat last).toNat = last :=
    UInt32.toNat_ofNat_of_lt' (by simpa [UInt32.size] using by omega)
  have hbytes : 0 < (bytesRead content first last).length := by
    rw [bytesRead, List.length_take, List.length_drop]
    omega
  refine ⟨_, by rw [onReceiveFileErrorEvent, errorRange_fileError hothers (Nat.le_of_lt hlt), if_pos hlast]; rfl, ?_⟩
  simp only [hzero first hfirst, hzero last hlast, Int32.toUInt32_ofNat']
  by_cases hpositive : 0 < first
  · rw [if_pos ⟨hpositive, by omega⟩, sendFilePart]
    by_cases hopen : s.fileOpened = true
    · -- the part that is read from the start of the range
      rw [if_pos hopen, if_pos ⟨hopen, hpositive⟩, seek_run _ hc hfirst, hsize]
      change (if 0 < (bytesRead content first last).length then _ else _ : FileUploader).sent = _
      rw [if_pos hbytes]
      rfl
    · rw [if_neg hopen, if_neg fun h => hopen h.1, List.append_nil]
  · rw [if_neg fun h => hpositive h.1, if_neg fun h => hpositive h.2, List.append_nil]

/-- The handler resends the range: parts that follow each other and hold its bytes. -/
def ResendsRange (s : FileUploader) (content : List UInt8) (first last : ℕ) (result : Option FileUploader) : Prop :=
  ∃ s' blocks, result = some s' ∧ s'.sent = s.sent ++ parts s.fileName first blocks ∧
    blocks.flatten = (content.drop first).take (last - first) ∧ ∀ bytes ∈ blocks, bytes ≠ []

theorem encode_injective {a b : List UInt8} (h : Base64.encode a = Base64.encode b) : a = b := by
  have hdecode := Base64.decode_text a
  rw [h, Base64.decode_text, Option.some.injEq] at hdecode
  exact hdecode.symm

/-- One part is the range if and only if it holds its bytes. -/
theorem resends_part {s' : FileUploader} {first last : ℕ} (hpos : 0 < first) (hlt : first < last)
    (hle : last ≤ content.length)
    (hlast : last < 2 ^ 31)
    (hsent : s'.sent = s.sent ++
      [.element (partElement s.fileName (UInt32.ofNat first) (bytesRead content first last))]) :
    ResendsRange s content first last (some s') ↔ last = content.length := by
  have hread : (bytesRead content first last).length = min last (content.length - first) := by
    rw [bytesRead, List.length_take, List.length_drop]
  constructor
  · rintro ⟨t, blocks, ht, hparts, hflat, -⟩
    obtain rfl := Option.some.inj ht
    rw [hsent, List.append_cancel_left_eq] at hparts
    match blocks, hparts, hflat with
    | [bytes], hparts, hflat =>
      simp only [parts, part, partElement, List.cons.injEq, and_true, Message.element.injEq, Element.mk.injEq] at hparts
      have hbytes := encode_injective hparts.2.2
      rw [List.flatten_singleton, ← hbytes] at hflat
      have hlen := congrArg List.length hflat
      rw [hread, List.length_take, List.length_drop] at hlen
      omega
    | [], hparts, _ => cases hparts
    | _ :: _ :: _, hparts, _ => simp [parts] at hparts
  · rintro rfl
    have hall : bytesRead content first content.length = (content.drop first).take (content.length - first) := by
      rw [bytesRead, List.take_of_length_le (by rw [List.length_drop]; omega),
        List.take_of_length_le (by rw [List.length_drop])]
    refine ⟨s', [bytesRead content first content.length], rfl, ?_, ?_, ?_⟩
    · rw [hsent, partElement_eq _ (by rw [hread]; omega)]
      rfl
    · rw [List.flatten_singleton, hall]
    · intro bytes hbytes
      obtain rfl := List.mem_singleton.1 hbytes
      rw [← List.length_pos_iff, hread]
      omega

/-- **The handler resends the range if and only if the file is open and the range begins behind the
first byte, ends with the file, and fits in an `int`.** -/
theorem onReceiveFileErrorEvent_resends {others : List (WString × WString)}
    (hothers : ∀ a ∈ others, a.1 ≠ lit "part-start" ∧ a.1 ≠ lit "part-end") (s : FileUploader) {first last : ℕ}
    (hlt : first < last) (hle : last ≤ s.pFileStream.content.length) :
    ResendsRange s s.pFileStream.content first last (s.onReceiveFileErrorEvent (fileError others first last)) ↔
      s.fileOpened = true ∧ 0 < first ∧ last = s.pFileStream.content.length ∧ last < 2 ^ 31 := by
  by_cases hlast : last < 2 ^ 31
  · obtain ⟨s', hrun, hsent⟩ := onReceiveFileErrorEvent_run hothers (s := s) rfl hlt hle hlast
    rw [hrun]
    by_cases hsends : s.fileOpened = true ∧ 0 < first
    · rw [if_pos hsends] at hsent
      rw [resends_part hsends.2 hlt hle hlast hsent]
      constructor
      · exact fun hend => ⟨hsends.1, hsends.2, hend, hlast⟩
      · exact fun h => h.2.2.1
    · -- nothing is sent, and the range has a byte
      rw [if_neg hsends, List.append_nil] at hsent
      constructor
      · rintro ⟨t, blocks, ht, hparts, hflat, -⟩
        obtain rfl := Option.some.inj ht
        rw [hsent, List.self_eq_append_right] at hparts
        match blocks, hparts, hflat with
        | [], _, hflat =>
          have hlen := congrArg List.length hflat
          rw [List.length_take, List.length_drop] at hlen
          simp only [List.flatten_nil, List.length_nil] at hlen
          omega
      · exact fun h => (hsends ⟨h.1, h.2.1⟩).elim
  · constructor
    · rintro ⟨s', blocks, hrun, -⟩
      rw [onReceiveFileErrorEvent, errorRange_fileError hothers (Nat.le_of_lt hlt), if_neg hlast] at hrun
      cases hrun
    · exact fun h => (hlast h.2.2.2).elim

/-- A file of three bytes that is being sent. -/
def sending : FileUploader where
  fileOpened := true
  fileName := lit "a.zip"
  pFileStream := { content := [0x50, 0x4B, 3] }

theorem sending_resends_end :
    ResendsRange sending [0x50, 0x4B, 3] 1 3 (sending.onReceiveFileErrorEvent (fileError [] 1 3)) := by
  have hothers : ∀ a ∈ ([] : List (WString × WString)), a.1 ≠ lit "part-start" ∧ a.1 ≠ lit "part-end" := by simp
  exact (onReceiveFileErrorEvent_resends hothers sending (by decide) (by decide)).2 ⟨rfl, by decide, rfl, by decide⟩

theorem sending_resends_more :
    ¬ResendsRange sending [0x50, 0x4B, 3] 1 2 (sending.onReceiveFileErrorEvent (fileError [] 1 2)) := by
  have hothers : ∀ a ∈ ([] : List (WString × WString)), a.1 ≠ lit "part-start" ∧ a.1 ≠ lit "part-end" := by simp
  obtain ⟨s', hrun, hsent⟩ := @onReceiveFileErrorEvent_run [0x50, 0x4B, 3] sending [] hothers rfl 1 2
    (by decide) (by decide) (by decide)
  rw [hrun, resends_part (by decide) (by decide) (by decide) (by decide) hsent]
  decide

end CaptureHPC.Cpp.FileUploader
