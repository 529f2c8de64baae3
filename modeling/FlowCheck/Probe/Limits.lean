import FlowCheck.Deployment
import FlowCheck.Probe.Bench

/-!
# Runs under limits of any kind

A limit that is no number cannot be compared with anything, so a run fails at the first comparison.
Such a limit is replaced by one that nothing keeps to, and the fault that follows is read as that
failure.  A memory limit that there is no room for is replaced by the room, and going beyond that is
a failure of its own.
-/

namespace FlowCheck.Probe

/-- The amount that takes the place of a limit. -/
def amountOf (limit : Value) : Amount :=
  limit.amount?.getD (.whole (-1))

/-- Whether a limit can be compared with numbers. -/
def isAmount (limit : Value) : Bool :=
  limit.amount?.isSome

/-- A fault that names a limit it went beyond.  It arises only for a limit that can be compared, and
only if the limit can be written. -/
def beyond (limit : Value) (f : Fault) : Tried Fault :=
  if !isAmount limit then .error .unfit
  else if limit.isPrintable then .ok f
  else .error .unprintable

/-- What a run is given besides its program, table and input. -/
structure Limits where
  /-- The greatest height of the data stack. -/
  stack : Value
  /-- The greatest height of the return stack. -/
  calls : Value
  /-- The greatest memory size. -/
  memory : Value
  /-- The step budget. -/
  steps : Value
  /-- The value sent along. -/
  value : Value
  /-- The room for the memory. -/
  room : Room

namespace Limits

/-- The memory limit of a run, cut to the room. -/
def memoryAmount (l : Limits) : Amount :=
  let a := amountOf l.memory
  if (l.room.wholeWords : Int) ≤ a.floor then .whole l.room.wholeWords else a

/-- A host under these limits. -/
def applyTo (l : Limits) (host : Machine.Host) : Machine.Host :=
  { host with
    stackLimit := amountOf l.stack
    returnLimit := amountOf l.calls
    memoryLimit := l.memoryAmount
    callValue := l.value.integer? }

/-- What a fault of a run means under these limits: the fault to report, or a misuse. -/
def interpret (l : Limits) (o : Machine.Outcome) (f : Fault) : Tried Fault :=
  match f.cause with
  | .stackFull _ => beyond l.stack f
  | .returnStackFull _ => beyond l.calls f
  | .outOfSteps _ => beyond l.steps f
  | .valueNotWhole => .error .unfit
  | .memoryLimit size _ =>
      match l.memory.amount? with
      | none => .error .unfit
      | some given =>
          if given.floor < size then beyond l.memory { f with cause := .memoryLimit size given }
          else .error (l.room.refusal (Memory.roundUp size - o.state.memory.size))
  | _ => .ok f

/-- The outcome of a run under these limits. -/
def run (l : Limits) (host : Machine.Host) : Tried Machine.Outcome :=
  let o := Machine.run (l.applyTo host) (amountOf l.steps)
  match o.ending with
  | .halted .. => .ok o
  | .faulted f => (l.interpret o f).map (fun f' => { o with ending := .faulted f' })

end Limits

/-- So many times a number; texts and lists are repeated. -/
def scaled (v : Value) (n : Nat) : Tried Value :=
  match v.amount?, v with
  | some a, _ => .ok (a.times n).toValue
  | none, .text s => .ok (.text (String.join (List.replicate n s)))
  | none, .list items => .ok (.list (List.replicate n items).flatten)
  | _, _ => .error .unfit

/-- Whether a rejection is found before a limit is looked at. -/
def isEarly (report : Validator.Report) : Bool :=
  report.steps == 1 &&
    match report.verdict with
    | .rejected r =>
        [Reason.stepLimitExceeded, .invalidInstruction, .stackUnderflow].contains r.cause.reason
    | .accepted => false

/-- Validates under a stack limit and a step budget of any kind. -/
def validate (job : Validator.Job) (limit budget : Value) : Tried Validator.Report :=
  if !isAmount budget && job.program.length != 0 then .error .unfit
  else
    let job := { job with budget := amountOf budget }
    match limit.amount? with
    | some a =>
        match Validator.validate { job with limit := a } with
        | .ok report => .ok report
        | .error _ => .error .unfit
    | none =>
        match Validator.validate { job with limit := .whole wordModulus } with
        | .ok report => if isEarly report then .ok report else .error .unfit
        | .error _ => .error .unfit

end FlowCheck.Probe
