import FlowCheck.Validator.Summary

/-!
# Validation

The traversal, then the check of the call sites.  A program is accepted if neither refuses it.
-/

namespace FlowCheck.Validator

/-- The result of a validation. -/
structure Report where
  /-- Whether the program may be deployed. -/
  verdict : Verdict
  /-- The contracts of the subroutines of an accepted program. -/
  subroutines : List Summary
  /-- The traversal steps made, the failing one included. -/
  steps : Nat
  /-- The frames opened. -/
  frames : Nat

/-- The limit of a validation is no number of items. -/
structure Uncountable where

/-- The job of validating a program against a table. -/
def Job.make (program : Program) (table : JumpTable) (limit factor : Amount) : Job where
  program := program
  table := table
  limit := limit
  budget := factor.times (program.length + table.size + 1 : Nat)

/-- Validates a program. -/
def validate (job : Job) : Except Uncountable Report :=
  match traverse job with
  | .error .uncountable _ => .error ⟨⟩
  | .error (.rejected r) s => .ok ⟨.rejected r, [], s.steps, s.frames.size⟩
  | .ok _ s =>
      match summarise job.limit s.frames with
      | .error r => .ok ⟨.rejected r, [], s.steps, s.frames.size⟩
      | .ok subroutines => .ok ⟨.accepted, subroutines, s.steps, s.frames.size⟩

end FlowCheck.Validator
