import CaptureHPC.Lib.Delimited

/-!
# The client's receiver

`ServerReceive::run`: what `recv` returns is taken apart at NUL bytes, and each document is
handed to the `EventController`. The thread is not told to stop and the server stays
connected.
-/

namespace CaptureHPC

/-- What a call of `recv` returns: the bytes it put into the buffer, or SOCKET_ERROR. -/
inductive Recv
  | bytes (buffer : List UInt8)
  | socketError

namespace Recv

def bytesRecv : Recv → ℤ
  | bytes buffer => buffer.length
  | socketError => -1

theorem bytesRecv_bytes (buffer : List UInt8) : (bytes buffer).bytesRecv = buffer.length := rfl

def buffer : Recv → List UInt8
  | bytes b => b
  | socketError => []

end Recv

structure ServerReceive where
  xmlDocument : List UInt8 := []
  /-- The documents handed to `receiveServerEvent`. -/
  documents : List (List UInt8) := []
  reconnects : ℕ := 0

namespace ServerReceive

/-- The body of the loop over the buffer. -/
def receiveByte (s : ServerReceive) (b : UInt8) : ServerReceive :=
  if b ≠ 0 then { s with xmlDocument := s.xmlDocument ++ [b] }
  else { s with xmlDocument := [], documents := s.documents ++ [s.xmlDocument] }

/-- What follows one call of `recv`. With at most two bytes the inner loop ends without a look at
the buffer, and the next round of the outer loop starts with an empty document. -/
def receive (s : ServerReceive) (r : Recv) : ServerReceive :=
  if 2 < r.bytesRecv then r.buffer.foldl receiveByte s
  else
    { s with xmlDocument := [], reconnects := if r.bytesRecv < 0 then s.reconnects + 1 else s.reconnects }

/-- The calls of `recv`, in order. -/
def run (rs : List Recv) : ServerReceive := rs.foldl receive {}

end ServerReceive

end CaptureHPC
