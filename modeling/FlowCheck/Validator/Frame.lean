import Std.Data.HashMap

/-!
# Frames

The main program and every subroutine that is called are analysed as frames of their own, with
stack depths counted from the height at entry.
-/

namespace FlowCheck.Validator

/-- The main program, or the subroutine at an entry. -/
inductive FrameId where
  | main
  | entry (pc : Nat)
  deriving DecidableEq, Hashable

/-- The entry of a frame as messages give it. -/
def FrameId.label : FrameId → Int
  | main => -1
  | entry pc => pc

/-- A call. -/
structure CallSite where
  /-- The calling frame. -/
  caller : FrameId
  /-- The entry called. -/
  callee : Nat
  /-- Where the call stands. -/
  pc : Nat
  /-- Where control resumes. -/
  resume : Nat
  /-- The depth at the call, relative to the caller's entry. -/
  depth : Int

/-- What is known about a frame. -/
structure Frame where
  /-- Which frame it is. -/
  id : FrameId
  /-- The depth at each program counter reached in the frame. -/
  depths : Std.HashMap Nat Int := {}
  /-- The deepest dip below the entry. -/
  low : Int := 0
  /-- The greatest depth. -/
  high : Int := 0
  /-- The depth at the returns, once one is reached. -/
  net : Option Int := none
  /-- The calls of this frame, oldest first. -/
  callers : List CallSite := []
  /-- The calls made by this frame, oldest first. -/
  calls : List CallSite := []

/-- Frames in the order in which they were opened. -/
structure Frames where
  /-- The frames, oldest first. -/
  toList : List Frame

namespace Frames

/-- The frame of an id. -/
def find? (fs : Frames) (id : FrameId) : Option Frame :=
  fs.toList.find? (fun f => f.id == id)

/-- Changes the first frame of an id in a list. -/
def modifyIn (id : FrameId) (change : Frame → Frame) : List Frame → List Frame
  | [] => []
  | f :: rest => if f.id == id then change f :: rest else f :: modifyIn id change rest

/-- Changes the frame of an id. -/
def modify (fs : Frames) (id : FrameId) (change : Frame → Frame) : Frames :=
  ⟨modifyIn id change fs.toList⟩

/-- Adds a frame. -/
def add (fs : Frames) (f : Frame) : Frames :=
  ⟨fs.toList ++ [f]⟩

/-- The number of frames. -/
def size (fs : Frames) : Nat :=
  fs.toList.length

/-- The ids of the frames, oldest first. -/
def ids (fs : Frames) : List FrameId :=
  fs.toList.map Frame.id

end Frames

end FlowCheck.Validator
