import FlowCheck.Arithmetic
import Std.Data.HashMap
import Std.Data.HashSet

/-!
# Directed graphs

The strongly connected components of a graph, found in one depth-first search.  Vertices are
numbered as they are met, and they stay on a stack until their component is complete.  A vertex
being searched keeps the least number on the stack that it is known to lead to.  If that is still
its own number when all its successors have been looked at, the vertex and everything above it on
the stack form a component.  So a component comes out after every other component that it has edges
into.
-/

namespace FlowCheck

/-- A graph: the vertices to start from, and the edges out of each vertex. -/
structure Graph (α : Type) [BEq α] [Hashable α] where
  /-- Where searches start. -/
  roots : List α
  /-- The successors of each vertex. -/
  successors : Std.HashMap α (List α)
  /-- At least the steps of a search: one for each vertex and one for each edge. -/
  bound : Nat

namespace Graph

variable {α : Type} [BEq α] [Hashable α]

/-- The graph with given successor lists; of two lists for one vertex the later one counts. -/
def ofLists (roots : List α) (edges : List (α × List α)) : Graph α where
  roots := roots
  successors := edges.foldl (fun m (v, ws) => m.insert v ws) {}
  bound := roots.length + 2 * (edges.map (fun (_, ws) => ws.length)).sum

/-- The successors of a vertex, in order. -/
def next (g : Graph α) (v : α) : List α :=
  g.successors.getD v []

/-- The progress of a search for components. -/
structure Search (α : Type) [BEq α] [Hashable α] where
  /-- How many vertices were met so far. -/
  count : Nat := 0
  /-- The vertices met so far, numbered in the order of meeting. -/
  number : Std.HashMap α Nat := {}
  /-- The least number on the stack that each vertex is known to lead to. -/
  low : Std.HashMap α Nat := {}
  /-- The vertices met whose components are not complete, the last one first. -/
  stack : List α := []
  /-- The vertices on the stack. -/
  onStack : Std.HashSet α := {}
  /-- The complete components, the last one first. -/
  complete : List (List α) := []

/-- The vertices being searched, the innermost first, with the successors still to look at. -/
abbrev Pending (α : Type) := List (α × List α)

namespace Search

/-- The number of a vertex. -/
def numberOf (s : Search α) (v : α) : Nat :=
  s.number.getD v 0

/-- The least number that a vertex is known to lead to. -/
def lowOf (s : Search α) (v : α) : Nat :=
  s.low.getD v 0

/-- Numbers a vertex that was not met and puts it on the stack. -/
def meet (s : Search α) (v : α) : Search α :=
  { s with
    count := s.count + 1
    number := s.number.insert v s.count
    low := s.low.insert v s.count
    stack := v :: s.stack
    onStack := s.onStack.insert v }

/-- Notes that a vertex leads to a number. -/
def lower (s : Search α) (v : α) (n : Nat) : Search α :=
  { s with low := s.low.insert v (min (s.lowOf v) n) }

/-- Cuts a stack below a vertex. -/
def cutBelow (v : α) : List α → List α × List α
  | [] => ([], [])
  | w :: rest =>
      if w == v then ([w], rest)
      else
        let (above, below) := cutBelow v rest
        (w :: above, below)

/-- Takes a vertex and everything above it off the stack, as a component. -/
def close (s : Search α) (v : α) : Search α :=
  let (component, below) := cutBelow v s.stack
  { s with
    stack := below
    onStack := component.foldl (fun set w => set.erase w) s.onStack
    complete := component :: s.complete }

/-- Finishes a vertex: the one that it was met from leads to what it leads to, and its component is
complete if it leads to no number below its own. -/
def finish (s : Search α) (v : α) (outer : Pending α) : Search α :=
  let s := match outer with
    | [] => s
    | (u, _) :: _ => s.lower u (s.lowOf v)
  if s.lowOf v = s.numberOf v then s.close v else s

/-- Looks at the next successor of the innermost vertex, or finishes that vertex. -/
def step (g : Graph α) : Pending α → Search α → Pending α × Search α
  | [], s => ([], s)
  | (v, []) :: outer, s => (outer, s.finish v outer)
  | (v, w :: rest) :: outer, s =>
      if !s.number.contains w then ((w, g.next w) :: (v, rest) :: outer, s.meet w)
      else if s.onStack.contains w then ((v, rest) :: outer, s.lower v (s.numberOf w))
      else ((v, rest) :: outer, s)

/-- Steps until no vertex is being searched. -/
def run (g : Graph α) : (fuel : Nat) → Pending α → Search α → Search α
  | 0, _, s => s
  | _ + 1, [], s => s
  | fuel + 1, work, s =>
      let (work, s) := step g work s
      run g fuel work s

/-- Searches from a root, unless it was met before. -/
def start (g : Graph α) (s : Search α) (root : α) : Search α :=
  if s.number.contains root then s else run g g.bound [(root, g.next root)] (s.meet root)

end Search

/-- The strongly connected components, each after the others that it has edges into. -/
def components (g : Graph α) : List (List α) :=
  (g.roots.foldl (Search.start g) {}).complete.reverse

end Graph

end FlowCheck
