import CaptureHPC.Lib.Heap
import CaptureHPC.Spec.UrlFactory

/-!
# The queue of URLs

`urlQueue` of the `UrlsController`, a `PriorityBlockingQueue` with a comparator of its own, with `addUrl`
and `takeUrl`.
-/

namespace CaptureHPC

open Lib

/-- `(int) (url.getPriority() * 100)`. -/
def scaledPriority (priority : Binary64) : ℤ := (priority.scale 100).toInt

/-- The comparator: the difference is an `int`, and the larger priority comes first. -/
def comparePriority (p1 p2 : Binary64) : ℤ := (scaledPriority p2 - scaledPriority p1).bmod (2 ^ 32)

namespace UrlQueue

def compare (o1 o2 : PriorityUrl) : ℤ := comparePriority o1.priority o2.priority

/-- `inUrlQueue`. -/
def inUrlQueue (url : PriorityUrl) (urlQueue : List PriorityUrl) : Bool :=
  urlQueue.any fun url1 => equalsIgnoreCase url.escapedUrl url1.escapedUrl &&
    url.clientProgram == url1.clientProgram && url.visitTime == url1.visitTime

def addUrl (url : PriorityUrl) (urlQueue : List PriorityUrl) : List PriorityUrl :=
  if inUrlQueue url urlQueue then urlQueue else PriorityQueue.offer compare url urlQueue

def takeUrl (urlQueue : List PriorityUrl) : Option (PriorityUrl × List PriorityUrl) := PriorityQueue.poll compare urlQueue

/-- A call of the controller. -/
inductive Call
  | addUrl (url : PriorityUrl)
  | takeUrl

def step (urlQueue : List PriorityUrl) : Call → List PriorityUrl
  | .addUrl url => addUrl url urlQueue
  | .takeUrl => ((takeUrl urlQueue).map Prod.snd).getD urlQueue

/-- The queue after some calls. -/
def run (calls : List Call) : List PriorityUrl := calls.foldl step []

end UrlQueue

end CaptureHPC
