import FlowCheck.Log.Logger
import FlowCheck.Record

/-!
# What validation and execution log

A validation logs the contract of every subroutine for debugging, then its own end.  A run logs its
fault, or its end.
-/

namespace FlowCheck

/-- Named data as named arguments. -/
def Log.contextOf (entries : List (String × Value)) : Log.Entry.Keywords :=
  entries.map (fun (k, v) => (.text k, v))

/-- What a validation logs. -/
def Validator.Report.logEntries (job : Job) (r : Report) : List Log.Entry :=
  r.subroutines.map (fun s =>
      { level := .debug, message := "subroutine summary", context := Log.contextOf s.toEntries })
    ++ [Log.Entry.ofOperation (.text "validate") (some .measured) true (Log.contextOf
      [("accepted", .bool r.verdict.isAccepted), ("code_size", .nat job.program.length),
        ("jumptable_size", .nat job.table.size), ("steps", .nat r.steps), ("frames", .nat r.frames),
        ("verdict", .text r.verdict.describe)])]

/-- What a run logs. -/
def Machine.Outcome.logEntry (o : Outcome) : Log.Entry :=
  match o.ending with
  | .faulted f =>
      { level := .warning
        message := "execution fault"
        errorCode := .text f.cause.kind.name
        context := Log.contextOf
          [("pc", Value.ofOption Value.int f.pc),
            ("opcode", Value.ofOption Offender.toValue f.offender),
            ("detail", .text f.cause.message), ("steps", .nat o.state.steps)] }
  | .halted reason _ =>
      Log.Entry.ofOperation (.text "execute") (some .measured) (reason != .revert) (Log.contextOf
        [("steps", .nat o.state.steps), ("halt_reason", .text reason.name)])

end FlowCheck
