import Mathlib

/-!
# Documents as a parser reports them

The content of an element is text and elements. A parser cuts a text into chunks as it likes,
and reports the tags and the chunks in document order (`reports`). A handler that builds the
elements gives each a datum that it makes of the element's own chunks; the elements with these
data are `nodes`, and two ways to make the data agree on a document when they agree on the
chunks of each of its elements (`nodes_eq_iff`).
-/

namespace Lib.Sax

variable {ν β : Type}

/-- What stands between the tags of an element, and what stands after it. -/
inductive Content (ν β : Type)
  | done
  | text (chunk : List β) (rest : Content ν β)
  | element (name : ν) (attributes : List (ν × ν)) (content rest : Content ν β)

inductive Report (ν β : Type)
  | startElement (name : ν) (attributes : List (ν × ν))
  | characters (chunk : List β)
  | endElement (name : ν)

/-- An element that is built. -/
inductive Node (ν β : Type)
  | mk (name : ν) (attributes : List (ν × ν)) (data : List β) (children : List (Node ν β))

namespace Node

def name : Node ν β → ν
  | mk n _ _ _ => n

def data : Node ν β → List β
  | mk _ _ d _ => d

def get [DecidableEq ν] (key : ν) : Node ν β → Option ν
  | mk _ as _ _ => as.lookup key

def addAttributes (attributes : List (ν × ν)) : Node ν β → Node ν β
  | mk n as d cs => mk n (as ++ attributes) d cs

def setData (data : List β) : Node ν β → Node ν β
  | mk n as _ cs => mk n as data cs

def addChild (child : Node ν β) : Node ν β → Node ν β
  | mk n as d cs => mk n as d (cs ++ [child])

mutual

/-- The number of elements. -/
def count : Node ν β → ℕ
  | mk _ _ _ cs => countList cs + 1

def countList : List (Node ν β) → ℕ
  | [] => 0
  | c :: cs => count c + countList cs

end

theorem countList_append (cs ds : List (Node ν β)) : countList (cs ++ ds) = countList cs + countList ds := by
  induction cs with
  | nil => rw [List.nil_append, countList, Nat.zero_add]
  | cons c cs ih => rw [List.cons_append, countList, countList, ih, Nat.add_assoc]

theorem count_addAttributes (as : List (ν × ν)) (x : Node ν β) : (x.addAttributes as).count = x.count := by
  cases x
  simp only [addAttributes, count]

theorem count_setData (d : List β) (x : Node ν β) : (x.setData d).count = x.count := by
  cases x
  simp only [setData, count]

theorem count_addChild (c x : Node ν β) : (addChild c x).count = x.count + c.count := by
  cases x
  simp only [addChild, count, countList_append, countList]
  omega

end Node

/-- What is left of the chunks when each one, once `g` has been applied, takes the place of the one
before. -/
def latest (g : List β → List β) (d : List β) (chunks : List (List β)) : List β := (chunks.getLast?.map g).getD d

theorem latest_cons (g : List β → List β) (d chunk : List β) (chunks : List (List β)) :
    latest g d (chunk :: chunks) = latest g (g chunk) chunks := by
  unfold latest
  rw [List.getLast?_cons]
  cases chunks.getLast? <;> rfl

namespace Content

/-- The chunks of the element's own text. -/
def chunks : Content ν β → List (List β)
  | done => []
  | text chunk rest => chunk :: rest.chunks
  | element _ _ _ rest => rest.chunks

/-- What the parser reports, in document order. -/
def reports : Content ν β → List (Report ν β)
  | done => []
  | text chunk rest => .characters chunk :: rest.reports
  | element name attributes content rest =>
    .startElement name attributes :: content.reports ++ .endElement name :: rest.reports

/-- The elements, with the data that `datum` makes of their chunks. -/
def nodes (datum : List (List β) → List β) : Content ν β → List (Node ν β)
  | done => []
  | text _ rest => rest.nodes datum
  | element name attributes content rest =>
    .mk name attributes (datum content.chunks) (content.nodes datum) :: rest.nodes datum

/-- The chunks of each element in the content are so. -/
def Each (P : List (List β) → Prop) : Content ν β → Prop
  | done => True
  | text _ rest => rest.Each P
  | element _ _ content rest => P content.chunks ∧ content.Each P ∧ rest.Each P

/-- No element in the content has the name of the element it stands in. -/
def NoRepeat : ν → Content ν β → Prop
  | _, done => True
  | parent, text _ rest => rest.NoRepeat parent
  | parent, element name _ content rest => parent ≠ name ∧ content.NoRepeat name ∧ rest.NoRepeat parent

/-- The number of elements. -/
def size : Content ν β → ℕ
  | done => 0
  | text _ rest => rest.size
  | element _ _ content rest => content.size + 1 + rest.size

theorem countList_nodes (datum : List (List β) → List β) (c : Content ν β) :
    Node.countList (c.nodes datum) = c.size := by
  induction c with
  | done => rw [nodes, Node.countList, size]
  | text chunk rest ih => rw [nodes, ih, size]
  | element name attributes content rest ihc ihr => rw [nodes, Node.countList, Node.count, ihc, ihr, size]

/-- **Two ways to make the data** give the same elements exactly if they agree on each element. -/
theorem nodes_eq_iff {f g : List (List β) → List β} (c : Content ν β) :
    c.nodes f = c.nodes g ↔ c.Each fun chunks => f chunks = g chunks := by
  induction c with
  | done => exact iff_of_true rfl trivial
  | text chunk rest ih => exact ih
  | element name attributes content rest ihc ihr =>
    rw [nodes, nodes, Each, List.cons.injEq, Node.mk.injEq, ihc, ihr]
    simp only [true_and, and_assoc]

theorem Each.imp {P Q : List (List β) → Prop} (h : ∀ chunks, P chunks → Q chunks) (c : Content ν β)
    (hc : c.Each P) : c.Each Q := by
  induction c with
  | done => exact trivial
  | text chunk rest ih => exact ih hc
  | element name attributes content rest ihc ihr => exact ⟨h _ hc.1, ihc hc.2.1, ihr hc.2.2⟩

theorem Each.congr {P Q : List (List β) → Prop} (h : ∀ chunks, P chunks ↔ Q chunks) (c : Content ν β) :
    c.Each P ↔ c.Each Q :=
  ⟨Each.imp (fun chunks => (h chunks).1) c, Each.imp (fun chunks => (h chunks).2) c⟩

end Content

end Lib.Sax
