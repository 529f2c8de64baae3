import FlowCheck.Graph
import FlowCheck.Validator.Traversal

/-!
# Call sites and summaries

Once the traversal is done, two facts travel along the calls: how many items of its caller a frame
needs, and how high the stack can rise in it.  Needs are pushed from callees to callers until nothing
changes.  Heights are taken over chains of calls that leave every group of mutually recursive frames.
-/

namespace FlowCheck.Validator

/-- Numbers per frame. -/
abbrev PerFrame (α : Type) := Std.HashMap FrameId α

/-- The stack contract of a subroutine. -/
structure Summary where
  /-- Where the subroutine starts. -/
  entry : Nat
  /-- The items of the caller that it needs. -/
  needs : Int
  /-- What it leaves at its returns, if it returns. -/
  net : Option Int
  /-- The greatest depth in it and in what it calls outside of recursion. -/
  peak : Int

/-- The progress of pushing needs to callers. -/
structure Needs where
  /-- The items each frame needs. -/
  need : PerFrame Int
  /-- The frames whose callers have to be looked at again, the next one first. -/
  pending : List FrameId

/-- Refuses a call site. -/
def refuseCall (pc : Option Nat) (cause : Cause) : Except Rejection α :=
  .error ⟨cause, pc.map Int.ofNat, some (.opcode .jumpsub)⟩

/-- Pushes the needs of a frame to one of its callers. -/
def Needs.settle (limit : Amount) (id : FrameId) (n : Needs) (site : CallSite) :
    Except Rejection Needs :=
  let own := n.need.getD id 0
  let required := own - site.depth
  if required ≤ n.need.getD site.caller 0 then .ok n
  else if site.caller = .main ∨ limit.floor < required then
    refuseCall site.pc (.shortCallSite id.label own site.depth)
  else
    .ok { need := n.need.insert site.caller required
          pending :=
            if n.pending.contains site.caller then n.pending else site.caller :: n.pending }

/-- Pushes needs until no frame is pending. -/
def Needs.settleAll (limit : Amount) (frames : Frames) : (fuel : Nat) → Needs →
    Except Rejection Needs
  | 0, n => .ok n
  | fuel + 1, n =>
      match n.pending with
      | [] => .ok n
      | id :: rest =>
          let callers := ((frames.find? id).map Frame.callers).getD []
          match callers.foldlM (Needs.settle limit id) { n with pending := rest } with
          | .error r => .error r
          | .ok n' => settleAll limit frames fuel n'

/-- The items each frame needs of its caller. -/
def needs (limit : Amount) (frames : Frames) : Except Rejection (PerFrame Int) :=
  let start : Needs :=
    { need := frames.toList.foldl (fun m f => m.insert f.id (-f.low)) {}
      pending := frames.ids.reverse }
  let bound := frames.size * (limit.floor.toNat + 1) + 1
  (start.settleAll limit frames bound).map Needs.need

/-- The call graph of the frames. -/
def callGraph (frames : Frames) : Graph FrameId :=
  Graph.ofLists frames.ids
    (frames.toList.map (fun f => (f.id, f.calls.map (fun site => .entry site.callee))))

/-- A greatest depth, and the call it comes from if it lies in a callee. -/
structure Peak where
  /-- The depth. -/
  depth : Int
  /-- Where the call stands. -/
  site : Option Nat

/-- The greatest depth of a frame, given those of the frames outside its component. -/
def peakOf (peaks : PerFrame Peak) (component : List FrameId) (f : Frame) : Peak :=
  f.calls.foldl (fun best site =>
    if component.contains (.entry site.callee) then best
    else
      let reach := site.depth + ((peaks[FrameId.entry site.callee]?).map Peak.depth).getD 0
      if best.depth < reach then ⟨reach, some site.pc⟩ else best) ⟨f.high, none⟩

/-- Adds the greatest depths of the frames of a component. -/
def addPeaks (frames : Frames) (peaks : PerFrame Peak) (component : List FrameId) :
    PerFrame Peak :=
  component.foldl (fun m id =>
    match frames.find? id with
    | some f => m.insert id (peakOf peaks component f)
    | none => m) peaks

/-- The greatest depth of every frame. -/
def peaks (frames : Frames) : PerFrame Peak :=
  (callGraph frames).components.foldl (addPeaks frames) {}

/-- The summaries of the subroutines, in the order in which they were first called, unless a call
site has too few items or a chain of calls rises too high. -/
def summarise (limit : Amount) (frames : Frames) : Except Rejection (List Summary) :=
  match needs limit frames with
  | .error r => .error r
  | .ok need =>
      let heights := peaks frames
      let top := (heights[FrameId.main]?).getD ⟨0, none⟩
      if limit.floor < top.depth then refuseCall top.site (.callChain top.depth limit)
      else
        .ok (frames.toList.filterMap (fun f =>
          match f.id with
          | .main => none
          | .entry pc =>
              some ⟨pc, need.getD f.id 0, f.net, ((heights[f.id]?).map Peak.depth).getD 0⟩))

end FlowCheck.Validator
