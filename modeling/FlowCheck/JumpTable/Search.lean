import FlowCheck.JumpTable.Basic

/-!
# Queries of a jump table

Membership, the edges of a site and their presence, each by binary search.  The search finds the
first position from which on a test holds, provided that the test, once it holds, keeps holding.
-/

namespace FlowCheck.JumpTable

/-- The first index between `lo` and `hi` where a test holds, or `hi`. -/
def firstIndex (edges : Array Edge) (test : Edge → Bool) (lo hi : Nat) : Nat :=
  if lo < hi then
    let mid := (lo + hi) / 2
    match edges[mid]? with
    | none => hi
    | some e =>
        if test e then firstIndex edges test lo mid else firstIndex edges test (mid + 1) hi
  else lo
termination_by hi - lo

/-- The first index of the table where a test holds, or the size of the table. -/
def partitionPoint (t : JumpTable) (test : Edge → Bool) : Nat :=
  firstIndex t.edges test 0 t.edges.size

/-- Whether an edge is not before the edge from `source` to `dest`. -/
def reaches (source dest : Int) (e : Edge) : Bool :=
  source < e.source || (source == e.source && dest ≤ e.dest)

/-- Whether the table declares the edge from `source` to `dest`. -/
def hasEdge (t : JumpTable) (source dest : Int) : Bool :=
  match t.edges[t.partitionPoint (reaches source dest)]? with
  | some e => (e.source : Int) == source && (e.dest : Int) == dest
  | none => false

/-- Whether the table declares an edge from `source`. -/
def hasSource (t : JumpTable) (source : Int) : Bool :=
  match t.edges[t.partitionPoint (fun e => source ≤ e.source)]? with
  | some e => (e.source : Int) == source
  | none => false

/-- The declared destinations of `source`, ascending. -/
def targets (t : JumpTable) (source : Int) : List Nat :=
  let lo := t.partitionPoint (fun e => source ≤ e.source)
  let hi := t.partitionPoint (fun e => source < e.source)
  (t.edges.extract lo hi).toList.map Edge.dest

end FlowCheck.JumpTable
