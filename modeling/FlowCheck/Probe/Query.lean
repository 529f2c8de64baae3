import FlowCheck.InstructionSet
import FlowCheck.JumpTable.Search
import FlowCheck.Probe.Misuse

/-!
# Queries with data of any kind

Looking up edges, sources and instructions, and encoding immediates.  A look-up halves the sorted
entries until one place is left, so data that cannot be compared fails only if there is an entry to
compare it with.
-/

namespace FlowCheck.Probe

/-- The first place, from `low` up to `high`, from which on a test of the entries fails; the entries
that pass it come first. -/
def firstFailing (passes : Nat → Tried Bool) (low high : Nat) : Tried Nat :=
  if h : low < high then do
    let mid := (low + high) / 2
    if ← passes mid then firstFailing passes (mid + 1) high
    else firstFailing passes low mid
  else .ok low
termination_by high - low
decreasing_by all_goals omega

/-- The entry of a table at a place. -/
def entryAt (t : JumpTable) (i : Nat) : Option (Nat × Nat) :=
  (t.edges[i]?).map (fun e => (e.source, e.dest))

/-- Whether a pair of numbers comes before a pair of data. -/
def comesBefore (entry : Nat × Nat) (source dest : Value) : Tried Bool :=
  if source.same (.nat entry.1) then
    if dest.same (.nat entry.2) then .ok false else ordered Ordering.isLT (.nat entry.2) dest
  else ordered Ordering.isLT (.nat entry.1) source

/-- Whether an edge is declared. -/
def hasEdge (t : JumpTable) (source dest : Value) : Tried Bool :=
  match source.integer?, dest.integer? with
  | some s, some d => .ok (t.hasEdge s d)
  | _, _ => do
      let passes (i : Nat) : Tried Bool := match entryAt t i with
        | some entry => comesBefore entry source dest
        | none => .ok false
      match entryAt t (← firstFailing passes 0 t.size) with
      | some (s, d) => return source.same (.nat s) && dest.same (.nat d)
      | none => return false

/-- The first place of a source that is not below data. -/
def sourceStart (t : JumpTable) (source : Value) : Tried Nat :=
  firstFailing (fun i => match entryAt t i with
    | some (s, _) => ordered Ordering.isLT (.nat s) source
    | none => .ok false) 0 t.size

/-- The first place of a source that is above data. -/
def sourceStop (t : JumpTable) (source : Value) : Tried Nat :=
  firstFailing (fun i => match entryAt t i with
    | some (s, _) => (ordered Ordering.isLT source (.nat s)).map (!·)
    | none => .ok false) 0 t.size

/-- The declared destinations of a source. -/
def targets (t : JumpTable) (source : Value) : Tried (List Nat) :=
  match source.integer? with
  | some s => .ok (t.targets s)
  | none => do
      let start ← sourceStart t source
      let stop ← sourceStop t source
      return (t.edges.extract start stop).toList.map Edge.dest

/-- Whether a source has declared edges. -/
def hasSource (t : JumpTable) (source : Value) : Tried Bool :=
  match source.integer? with
  | some s => .ok (t.hasSource s)
  | none => do
      match entryAt t (← sourceStart t source) with
      | some (s, _) => return source.same (.nat s)
      | none => return false

/-- The row of the instruction set at a place, counted from the end below zero. -/
def rowAt (mode : OperandMode) (v : Value) : Tried (Option Descriptor) := do
  match mode.rowAt? (← whole v) with
  | some row => return row
  | none => throw .outside

/-- Whether data is the byte of an instruction. -/
def isRecognised (mode : OperandMode) (byte : Value) : Tried Bool := do
  if !(← ordered Ordering.isLE (.int 0) byte) then return false
  else if !(← ordered Ordering.isLE byte (.int 255)) then return false
  else return (← rowAt mode byte).isSome

/-- The instruction of a mnemonic. -/
def ofMnemonic (mode : OperandMode) (v : Value) : Tried (Option Descriptor) :=
  match v with
  | .text s => .ok (mode.ofMnemonic? s)
  | .codes _ => .ok none
  | _ => .error .lacking

/-- The bytes of data in a width of any kind, if there is room for them. -/
def encode (room : Room) (value width : Value) : Except (Misuse ⊕ Bytes.EncodeError) (List UInt8) :=
  match value.order? (.int 0), width.integer? with
  | none, _ => .error (.inr .notNumber)
  | some (some .lt), _ => .error (.inr (.ofMisfit value width))
  | some _, none => .error (.inl .unfit)
  | some _, some w =>
      if (room.bytes : Int) < w then .error (.inl (room.refusal w.toNat))
      else
        match Bytes.encodeShown width value w with
        | .ok bytes => .ok bytes
        | .error e => .error (.inr e)

end FlowCheck.Probe
