import Mathlib

/-!
# Records of variable size

A record is a header of fixed size and data whose size the header tells. Records that follow
each other in a stream can be read one by one: behind some of them, whatever comes after,
stands the next one (`header_at`, `bytes_at`).
-/

namespace Lib

variable {α : Type}

structure Layout (α : Type) where
  headerSize : ℕ
  headerSize_pos : 0 < headerSize
  /-- The size of the data, from the header. -/
  dataSize : List α → ℕ

structure Record (L : Layout α) where
  header : List α
  data : List α
  length_header : header.length = L.headerSize
  length_data : data.length = L.dataSize header

variable {L : Layout α}

namespace Record

def bytes (r : Record L) : List α := r.header ++ r.data

def size (r : Record L) : ℕ := L.headerSize + L.dataSize r.header

theorem length_bytes (r : Record L) : r.bytes.length = r.size := by
  rw [bytes, List.length_append, r.length_header, r.length_data, size]

theorem size_pos (r : Record L) : 0 < r.size := Nat.lt_of_lt_of_le L.headerSize_pos (Nat.le_add_right ..)

end Record

/-- Records one after the other. -/
def stream (rs : List (Record L)) : List α := rs.flatMap Record.bytes

theorem stream_append (rs rs' : List (Record L)) : stream (rs ++ rs') = stream rs ++ stream rs' :=
  List.flatMap_append

theorem stream_singleton (r : Record L) : stream [r] = r.bytes := by
  rw [stream, List.flatMap_singleton]

theorem stream_cons (r : Record L) (rs : List (Record L)) : stream (r :: rs) = r.bytes ++ stream rs :=
  List.flatMap_cons

/-- There are no more records than symbols. -/
theorem length_le_stream (rs : List (Record L)) : rs.length ≤ (stream rs).length := by
  induction rs with
  | nil => exact Nat.zero_le _
  | cons r rs ih =>
    have hpos := r.size_pos
    rw [stream_cons, List.length_append, r.length_bytes, List.length_cons]
    omega

theorem bytes_at (pre : List α) (r : Record L) (post : List α) :
    ((pre ++ (r.bytes ++ post)).drop pre.length).take r.size = r.bytes := by
  rw [List.drop_left, ← r.length_bytes, List.take_left]

theorem header_at (pre : List α) (r : Record L) (post : List α) :
    ((pre ++ (r.bytes ++ post)).drop pre.length).take L.headerSize = r.header := by
  rw [List.drop_left, Record.bytes, List.append_assoc, ← r.length_header, List.take_left]

end Lib
