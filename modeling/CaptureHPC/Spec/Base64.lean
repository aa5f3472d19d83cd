import CaptureHPC.Spec.FileUploader

/-!
# Base64 in its buffers

`Base64::encode` and `Base64::decode` with the memory they allocate. A write outside of it, or a
table read outside of the table, has no result.

* `malloc` succeeds, with any content (`junk`).
* A text has fewer than `2 ^ 32` bytes; the number of blocks and the size of the buffer are `int`.
-/

namespace CaptureHPC.Cpp.Base64

/-- `malloc`. -/
def malloc (junk : ℕ → UInt8) (size : ℕ) : List UInt8 := (List.range size).map junk

/-- `buffer[i] = b`. -/
def write (buffer : List UInt8) (i : ℤ) (b : UInt8) : Option (List UInt8) :=
  if 0 ≤ i ∧ i < buffer.length then some (buffer.set i.toNat b) else none

/-! ## Encoding -/

/-- The variables of `encode`: `encodedBuffer` and `k`. -/
structure Encoding where
  encodedBuffer : List UInt8
  k : ℕ := 0

/-- `encodedBuffer[k++] = b`. -/
def Encoding.push (s : Encoding) (b : UInt8) : Option Encoding :=
  (write s.encodedBuffer s.k b).map fun buffer => ⟨buffer, s.k + 1⟩

/-- The four letters of a block. -/
def Encoding.pushBlock (s : Encoding) (block : ℕ) : Option Encoding := do
  let s ← s.push (letter (block / 262144))
  let s ← s.push (letter (block / 4096))
  let s ← s.push (letter (block / 64))
  s.push (letter block)

/-- The loop over the bytes. -/
def encodeLoop : List UInt8 → Encoding → Option Encoding
  | a :: b :: c :: bytes, s => do encodeLoop bytes (← s.pushBlock (block a b c))
  | [a, b], s => s.pushBlock (block a b 0)
  | [a], s => s.pushBlock (block a 0 0)
  | [], s => some s

/-- The loop that pads the last block: `encodedBuffer[k-(3-i)] = '='`. -/
def padding (s : Encoding) : List ℕ → Option Encoding
  | [] => some s
  | i :: is => do
    let buffer ← write s.encodedBuffer (s.k - (3 - i)) '='.toUInt8
    padding { s with encodedBuffer := buffer } is

/-- The size of the buffer, `nBlocks*4+2`. -/
def bufferSize (length : ℕ) : Int32 :=
  let nBlocks := Int32.ofNat (length / 3)
  (if length % 3 ≠ 0 then nBlocks + 1 else nBlocks) * 4 + 2

/-- `encode`: the buffer and `encodedLength`. -/
def encodeBuffer (junk : ℕ → UInt8) (cleartextBuffer : List UInt8) : Option (List UInt8 × ℕ) := do
  let remainder := cleartextBuffer.length % 3
  let s ← encodeLoop cleartextBuffer ⟨malloc junk (bufferSize cleartextBuffer.length).toInt.toNat, 0⟩
  let s ← padding s (if remainder > 0 then List.range' remainder (3 - remainder) else [])
  some (s.encodedBuffer, s.k)

/-! ## Decoding -/

/-- `b64_index`. -/
def b64Index : List ℕ :=
  [100, 100, 100, 100, 100, 100, 100, 100, 100, 100, 100, 100, 100, 100, 100, 100,
   100, 100, 100, 100, 100, 100, 100, 100, 100, 100, 100, 100, 100, 100, 100, 100,
   100, 100, 100, 100, 100, 100, 100, 100, 100, 100, 100, 62, 100, 100, 100, 63,
   52, 53, 54, 55, 56, 57, 58, 59, 60, 61, 100, 100, 100, 100, 100, 100,
   100, 0, 1, 2, 3, 4, 5, 6, 7, 8, 9, 10, 11, 12, 13, 14,
   15, 16, 17, 18, 19, 20, 21, 22, 23, 24, 25, 100, 100, 100, 100, 100,
   100, 26, 27, 28, 29, 30, 31, 32, 33, 34, 35, 36, 37, 38, 39, 40,
   41, 42, 43, 44, 45, 46, 47, 48, 49, 50, 51, 100, 100, 100, 100, 100] ++ List.replicate 128 100

/-- `b64_index[c]`. A `char` is signed, so a byte above 127 reads in front of the table. -/
def indexOf (c : UInt8) : Option ℕ := if c < 128 then b64Index[c.toNat]? else none

/-- The variables of `decode`. -/
structure Decoding where
  buffer : List UInt8
  position : ℕ := 0
  encoded : UInt8 × UInt8 × UInt8 × UInt8 := (0, 0, 0, 0)

/-- `buffer[position++] = b`. -/
def Decoding.push (s : Decoding) (b : ℕ) : Option Decoding :=
  (write s.buffer s.position (UInt8.ofNat b)).map fun buffer =>
    { s with buffer := buffer, position := s.position + 1 }

/-- The three bytes of a block. -/
def Decoding.flush (s : Decoding) : Option Decoding := do
  let (c0, c1, c2, c3) := s.encoded
  let n0 ← indexOf c0
  let n1 ← indexOf c1
  let s ← s.push (n0 <<< 2 ||| n1 >>> 4)
  let n2 ← indexOf c2
  let s ← s.push (n1 <<< 4 ||| n2 >>> 2)
  let n3 ← indexOf c3
  s.push (n2 <<< 6 ||| n3)

/-- `encoded[i%4] = c`. -/
def Decoding.store (s : Decoding) (i : ℕ) (c : UInt8) : Decoding :=
  let (c0, c1, c2, c3) := s.encoded
  { s with encoded :=
      match i % 4 with
      | 0 => (c, c1, c2, c3)
      | 1 => (c0, c, c2, c3)
      | 2 => (c0, c1, c, c3)
      | _ => (c0, c1, c2, c) }

/-- The loop over the text and its NUL, from the index `i` on. -/
def decodeLoop : List UInt8 → ℕ → Decoding → Option Decoding
  | [], _, s => some s
  | c :: text, i, s => do
    let s ← if 0 < i ∧ i % 4 = 0 then s.flush else some s
    decodeLoop text (i + 1) (s.store i c)

/-- `decode` of the text in front of the first NUL. -/
def decodeBuffer (junk : ℕ → UInt8) (memory : List UInt8) : Option (List UInt8) :=
  if 0 ∈ memory then do
    let text := memory.takeWhile (· ≠ 0)
    let s ← decodeLoop (text ++ [0]) 0 ⟨malloc junk text.length, 0, (0, 0, 0, 0)⟩
    if s.position < text.length then write s.buffer s.position 0 else some s.buffer
  else none

end CaptureHPC.Cpp.Base64
