import CaptureHPC.Spec.Receive

/-!
# Documents and the chunks they arrive in

`documents_iff`: the receiver hands over the documents of the stream exactly if `recv` never
returns less than three bytes. A smaller chunk is lost with what was received of its
document, and the bytes that are left are too few for the documents.
-/

namespace CaptureHPC

open Lib

namespace ServerReceive

/-- The receiver as a scan of the bytes. -/
def scan (s : ServerReceive) : Scan UInt8 := ⟨s.documents, s.xmlDocument⟩

theorem scan_receiveByte (s : ServerReceive) (b : UInt8) : (s.receiveByte b).scan = s.scan.read 0 b := by
  unfold receiveByte Scan.read
  by_cases hb : b = 0
  · rw [if_neg (not_not.2 hb), if_pos hb]
    rfl
  · rw [if_pos hb, if_neg hb]
    rfl

theorem scan_foldl (s : ServerReceive) (l : List UInt8) :
    (l.foldl receiveByte s).scan = l.foldl (Scan.read 0) s.scan := by
  induction l generalizing s with
  | nil => rfl
  | cons b l ih => rw [List.foldl_cons, List.foldl_cons, ih, scan_receiveByte]

theorem receive_large {c : List UInt8} (hc : 2 < c.length) (s : ServerReceive) :
    s.receive (.bytes c) = c.foldl receiveByte s := by
  rw [receive, Recv.bytesRecv_bytes, if_pos (by omega)]
  rfl

theorem receive_small {c : List UInt8} (hc : ¬ 2 < c.length) (s : ServerReceive) :
    s.receive (.bytes c) = { s with xmlDocument := [] } := by
  rw [receive, Recv.bytesRecv_bytes, if_neg (by omega), if_neg (by omega)]

/-- Chunks of three bytes and more are as good as the stream. -/
theorem scan_of_large {chunks : List (List UInt8)} (h : ∀ c ∈ chunks, 2 < c.length) (s : ServerReceive) :
    ((chunks.map .bytes).foldl receive s).scan = chunks.flatten.foldl (Scan.read 0) s.scan := by
  induction chunks generalizing s with
  | nil => rfl
  | cons c cs ih =>
    rw [List.map_cons, List.foldl_cons, ih (fun d hd => h d (List.mem_cons_of_mem _ hd)),
      receive_large (h c List.mem_cons_self), scan_foldl, List.flatten_cons, List.foldl_append]

/-- No chunk adds more than its bytes. -/
theorem weight_le (chunks : List (List UInt8)) (s : ServerReceive) :
    ((chunks.map .bytes).foldl receive s).scan.weight ≤ s.scan.weight + chunks.flatten.length := by
  induction chunks generalizing s with
  | nil => rfl
  | cons c cs ih =>
    rw [List.map_cons, List.foldl_cons, List.flatten_cons, List.length_append]
    have hrest := ih (s.receive (.bytes c))
    have hone : (s.receive (.bytes c)).scan.weight ≤ s.scan.weight + c.length := by
      by_cases hc : 2 < c.length
      · rw [receive_large hc, scan_foldl, Scan.weight_foldl_read]
      · rw [receive_small hc]
        show (⟨s.documents, []⟩ : Scan UInt8).weight ≤ (⟨s.documents, s.xmlDocument⟩ : Scan UInt8).weight + _
        simp only [Scan.weight, List.length_nil]
        omega
    omega

/-- A chunk of one or two bytes is lost for good. -/
theorem weight_lt {chunks : List (List UInt8)} {c : List UInt8} (hc : c ∈ chunks) (hne : c ≠ [])
    (hsmall : ¬ 2 < c.length) (s : ServerReceive) :
    ((chunks.map .bytes).foldl receive s).scan.weight < s.scan.weight + chunks.flatten.length := by
  obtain ⟨pre, post, rfl⟩ := List.append_of_mem hc
  rw [List.map_append, List.foldl_append, List.map_cons, List.foldl_cons, receive_small hsmall]
  generalize hp : (pre.map Recv.bytes).foldl receive s = t
  have hpre := weight_le pre s
  rw [hp] at hpre
  have hpost := weight_le post { t with xmlDocument := [] }
  have hreset : ({ t with xmlDocument := [] } : ServerReceive).scan.weight ≤ t.scan.weight := by
    show (⟨t.documents, []⟩ : Scan UInt8).weight ≤ (⟨t.documents, t.xmlDocument⟩ : Scan UInt8).weight
    simp only [Scan.weight, List.length_nil]
    omega
  have hpos := List.length_pos_of_ne_nil hne
  rw [List.flatten_append, List.flatten_cons, List.length_append, List.length_append]
  omega

/-- **When the chunks do not matter.** For a stream of documents that each end with NUL,
in nonempty chunks: the documents are handed over, whole and in order, exactly if every
chunk has three bytes or more. -/
theorem documents_iff {docs chunks : List (List UInt8)} (hdocs : ∀ d ∈ docs, 0 ∉ d) (hne : ∀ c ∈ chunks, c ≠ [])
    (hstream : chunks.flatten = terminated 0 docs) :
    (run (chunks.map .bytes)).documents = docs ↔ ∀ c ∈ chunks, 2 < c.length := by
  constructor
  · intro h c hc
    by_contra hsmall
    have hlt := weight_lt hc (hne c hc) hsmall {}
    have hle : (terminated 0 docs).length ≤ (run (chunks.map .bytes)).scan.weight := by
      rw [← Scan.weight_units, ← h]
      simp only [Scan.weight, scan, List.length_nil]
      omega
    rw [hstream] at hlt
    have hzero : ({} : ServerReceive).scan.weight = 0 := rfl
    unfold run at hle
    omega
  · intro h
    have hscan := scan_of_large h {}
    rw [hstream] at hscan
    exact congrArg Scan.units (hscan.trans (Scan.scan_terminated hdocs []))

/-- Two documents, and the second begins in the chunk in which the first ends. -/
theorem documents_iff_overlapping : (run ([[60, 47, 62], [0, 60, 97], [47, 62, 0]].map .bytes)).documents =
    [[60, 47, 62], [60, 97, 47, 62]] :=
  (documents_iff (by decide) (by decide) (by decide)).2 (by decide)

/-- **A document is lost**: its last byte and the NUL arrive in a chunk of their own. -/
theorem chunk_lost : (run ([[60, 47], [62, 0]].map .bytes)).documents ≠ [[60, 47, 62]] ∧
    [[60, 47], [62, 0]].flatten = terminated (0 : UInt8) [[60, 47, 62]] := by
  decide

end ServerReceive

end CaptureHPC
