import FlowCheck.JumpTable.Search
import FlowCheck.Program
import FlowCheck.Validator.Constants
import FlowCheck.Validator.Frame

/-!
# The traversal

Follows every path of every frame once.  A path ends where it stops, jumps, calls, returns or meets
an instruction already visited in its frame, which must then have been reached with the same depth.
A call opens the callee's frame and resumes behind the call once the callee's depth at its returns
is known.
-/

namespace FlowCheck.Validator

/-- What a validation is about. -/
structure Job where
  /-- The program. -/
  program : Program
  /-- The declared edges of its computed jumps. -/
  table : JumpTable
  /-- The greatest stack depth. -/
  limit : Amount
  /-- The traversal steps allowed per frame. -/
  budget : Amount

/-- A path still to follow. -/
structure Path where
  /-- The frame it belongs to. -/
  frame : FrameId
  /-- Where it goes on. -/
  pc : Nat
  /-- The depth there. -/
  depth : Int

/-- The progress of a traversal. -/
structure State where
  /-- The frames opened so far. -/
  frames : Frames := ⟨[{ id := .main }]⟩
  /-- The paths still to follow, the next one first. -/
  worklist : List Path := [⟨.main, 0, 0⟩]
  /-- The steps made so far. -/
  steps : Nat := 0

/-- Why a traversal ends early. -/
inductive Halt where
  /-- The program is refused. -/
  | rejected (r : Rejection)
  /-- The limit is no number of items, so tracked constants cannot be cut to it. -/
  | uncountable

/-- A part of a traversal. -/
abbrev Walk (α : Type) := EStateM Halt State α

/-- The steps allowed with so many frames. -/
def Job.ceiling (job : Job) (frames : Nat) : Amount :=
  job.budget.times (max 1 frames : Nat)

/-- Refuses the program. -/
def reject (cause : Cause) (pc : Nat) (offender : Option Offender) : Walk α :=
  throw (.rejected ⟨cause, some pc, offender⟩)

/-- Lifts a check into a traversal. -/
def require (check : Except Rejection α) : Walk α :=
  match check with
  | .ok a => return a
  | .error r => throw (.rejected r)

/-- Refuses an instruction. -/
def refuse (i : Instruction) (cause : Cause) : Except Rejection α :=
  .error ⟨cause, some i.pc, some i.offender⟩

/-- Cuts tracked constants to the limit. -/
def cut (job : Job) (constants : Constants) : Walk Constants :=
  match job.limit.count? with
  | some n => return constants.take n.toNat
  | none => throw .uncountable

/-- Where a jump or call with a target on the stack may go: to the known target, or to every declared
one. -/
def Job.targets (job : Job) (i : Instruction) (constants : Constants) (marker : Marker) :
    Except Rejection (List Nat) :=
  match constants.top? with
  | some known =>
      if !job.program.hasMarker marker known then refuse i (.staticNotMarker known marker)
      else if job.table.hasSource i.pc && !job.table.hasEdge i.pc known then
        refuse i (.staticNotDeclared known)
      else .ok [known]
  | none =>
      let declared := job.table.targets i.pc
      if declared.isEmpty then refuse i .noEntries
      else
        match declared.find? (fun t => !job.program.hasMarker marker t) with
        | some t => refuse i (.tableNotMarker t marker)
        | none => .ok declared

/-- Where a call may go. -/
def Job.callTargets (job : Job) (i : Instruction) (constants : Constants) :
    Except Rejection (List Nat) :=
  match i.immediate with
  | some target => if job.program.isEntry target then .ok [target] else refuse i (.notEntry target)
  | none => job.targets i constants .entry

/-- The dip and the new depth of an instruction, within the limits of its frame. -/
def Job.checkDepth (job : Job) (frame : FrameId) (i : Instruction) (depth : Int) :
    Except Rejection (Int × Int) :=
  let low := depth - i.descriptor.inputs
  let after := depth + i.descriptor.delta
  if low < 0 ∧ frame = .main then
    refuse i (.underflow i.descriptor.mnemonic i.descriptor.inputs depth)
  else if job.limit.floor < -low then refuse i (.callerItems frame.label job.limit)
  else if job.limit.floor < after then refuse i (.overflow after job.limit)
  else .ok (low, after)

/-- Adds a path to follow next. -/
def pushPath (p : Path) : Walk Unit :=
  modify (fun s => { s with worklist := p :: s.worklist })

/-- Changes a frame. -/
def modifyFrame (id : FrameId) (change : Frame → Frame) : Walk Unit :=
  modify (fun s => { s with frames := s.frames.modify id change })

/-- Resumes behind a call whose callee returns with a net depth. -/
def resume (job : Job) (site : CallSite) (net : Int) : Walk Unit := do
  let depth := site.depth + net
  if site.caller = .main ∧ depth < 0 then
    reject (.belowBase site.callee (-depth)) site.pc (some (.opcode .jumpsub))
  else if job.limit.floor < depth then
    reject (.overflowAfterReturn depth job.limit) site.pc (some (.opcode .jumpsub))
  else pushPath ⟨site.caller, site.resume, depth⟩

/-- Opens the frame of an entry unless it is open. -/
def openFrame (target : Nat) : Walk Unit := do
  let s ← get
  match s.frames.find? (.entry target) with
  | some _ => return ()
  | none =>
      set { s with
        frames := s.frames.add { id := .entry target }
        worklist := ⟨.entry target, target, 0⟩ :: s.worklist }

/-- Records a call and resumes behind it if the callee is known to return. -/
def call (job : Job) (frame : FrameId) (i : Instruction) (depth : Int) (target : Nat) :
    Walk Unit := do
  openFrame target
  let site : CallSite := ⟨frame, target, i.pc, i.next, depth⟩
  modifyFrame (.entry target) (fun f => { f with callers := f.callers ++ [site] })
  modifyFrame frame (fun f => { f with calls := f.calls ++ [site] })
  let s ← get
  match (s.frames.find? (.entry target)).bind Frame.net with
  | some net => resume job site net
  | none => return ()

/-- Records a return: the first one resumes every caller, a later one has to agree with it. -/
def returnFrom (job : Job) (frame : FrameId) (i : Instruction) (depth : Int) : Walk Unit := do
  if frame = .main then require (refuse i .strayReturn)
  else
    let s ← get
    match s.frames.find? frame with
    | none => return ()
    | some f =>
        match f.net with
        | none =>
            modifyFrame frame (fun f => { f with net := some depth })
            f.callers.forM (fun site => resume job site depth)
        | some net =>
            if net = depth then return ()
            else require (refuse i (.returnMismatch frame.label depth net))

/-- Counts a step at a program counter. -/
def countStep (job : Job) (pc : Nat) : Walk Unit := do
  modify (fun s => { s with steps := s.steps + 1 })
  let s ← get
  let ceiling := job.ceiling s.frames.size
  if ceiling.floor < s.steps then reject (.stepLimit ceiling) pc none

/-- How a path goes on behind an instruction. -/
structure Onward where
  /-- The immediate width of the instruction. -/
  width : Nat
  /-- The depth behind it. -/
  depth : Int
  /-- The constants known behind it. -/
  constants : Constants

/-- What an instruction does to a path that reaches it with a depth and known constants. -/
def dispatch (job : Job) (frame : FrameId) (i : Instruction) (depth : Int)
    (constants : Constants) : Walk (Option Onward) := do
  let width := i.descriptor.width
  match i.descriptor.kind with
  | .push =>
      let after ← cut job (constants.afterPush i.immediate)
      return some ⟨width, depth, after⟩
  | .plain =>
      if i.opcode = .jumpdest then return some ⟨width, depth, []⟩
      else
        let after ← cut job (constants.afterPlain i.descriptor)
        return some ⟨width, depth, after⟩
  | .beginsub => return some ⟨width, depth, []⟩
  | .terminal => return none
  | .returnsub =>
      returnFrom job frame i depth
      return none
  | .jump =>
      let targets ← require (job.targets i constants .jumpdest)
      targets.forM (fun t => pushPath ⟨frame, t, depth⟩)
      return none
  | .jumpi =>
      let targets ← require (job.targets i constants .jumpdest)
      targets.forM (fun t => pushPath ⟨frame, t, depth⟩)
      return some ⟨width, depth, constants.drop 2⟩
  | .jumpsub =>
      let targets ← require (job.callTargets i constants)
      targets.forM (fun t => call job frame i depth t)
      return none

/-- Expands an instruction that its frame has not visited: records its depth, checks it and
dispatches. -/
def expand (job : Job) (frame : FrameId) (pc : Nat) (i : Instruction) (depth : Int)
    (constants : Constants) : Walk (Option Onward) := do
  modifyFrame frame (fun f => { f with depths := f.depths.insert pc depth })
  let (low, after) ← require (job.checkDepth frame i depth)
  modifyFrame frame (fun f => { f with low := min f.low low, high := max f.high after })
  dispatch job frame i after constants

/-- Visits one instruction on a path. -/
def visit (job : Job) (frame : FrameId) (pc : Nat) (depth : Int) (constants : Constants) :
    Walk (Option Onward) := do
  countStep job pc
  let i ← require (job.program.decode pc)
  let s ← get
  match (s.frames.find? frame).bind (fun f => f.depths[pc]?) with
  | some seen =>
      if seen = depth then return none
      else require (refuse i (.depthMismatch depth seen))
  | none => expand job frame pc i depth constants

/-- Follows a path to its end. -/
def follow (job : Job) (frame : FrameId) (pc : Nat) (depth : Int) (constants : Constants) :
    Walk Unit :=
  if pc < job.program.length then do
    match ← visit job frame pc depth constants with
    | none => return ()
    | some on => follow job frame (pc + 1 + on.width) on.depth on.constants
  else return ()
termination_by job.program.length - pc

/-- Follows paths until none is left. -/
def followAll (job : Job) : (fuel : Nat) → Walk Unit
  | 0 => return ()
  | fuel + 1 => do
      let s ← get
      match s.worklist with
      | [] => return ()
      | p :: rest =>
          set { s with worklist := rest }
          follow job p.frame p.pc p.depth []
          followAll job fuel

/-- More paths than a traversal can ever have: each frame starts once, and each of its program
counters adds a path for itself or for each of its declared edges. -/
def Job.pathBound (job : Job) : Nat :=
  (job.program.length + 1) * (job.program.length + job.table.size + 1) + 1

/-- The traversal of a program. -/
def traverse (job : Job) : EStateM.Result Halt State Unit :=
  (followAll job job.pathBound).run {}

end FlowCheck.Validator
