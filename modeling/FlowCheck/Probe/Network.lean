import FlowCheck.Graph
import FlowCheck.Probe.Misuse

/-!
# Graphs of data of any kind

Strongly connected components of a graph whose vertices are data.  Equal data is one vertex, which is
shown as it was first given.  Collections cannot be vertices.
-/

namespace FlowCheck.Probe

/-- Whether data can be a vertex. -/
def isVertex : Value → Bool
  | .list _ | .map _ => false
  | _ => true

/-- The data of a list without repetitions. -/
def distinct (vs : List Value) : List Value :=
  vs.foldl (fun found v => if found.any v.same then found else found ++ [v]) []

/-- Whether data can be sorted: any two items are in an order. -/
def isSortable (vs : List Value) : Bool :=
  vs.length < 2 || vs.all (fun v => vs.all (fun w => (v.order? w).isSome))

/-- Data in ascending order. -/
def sorted (vs : List Value) : Tried (List Value) :=
  if isSortable vs then
    .ok (vs.mergeSort (fun v w => v.order? w != some (some .gt)))
  else .error .unfit

/-- The components of a graph, each sorted. -/
def components (nodes : List Value) (edges : List (Value × List Value)) :
    Tried (List (List Value)) := do
  let mentioned := nodes ++ edges.flatMap (fun (v, ws) => v :: ws)
  if !mentioned.all isVertex then throw .unfit
  let names := (distinct mentioned).toArray
  let label (v : Value) : Nat := (names.findIdx? v.same).getD names.size
  let graph := Graph.ofLists (nodes.map label) (edges.map (fun (v, ws) => (label v, ws.map label)))
  graph.components.mapM (fun c => sorted (c.map (fun i => names.getD i .null)))

end FlowCheck.Probe
