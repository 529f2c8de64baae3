import FlowCheck.Probe.Counter
import FlowCheck.Probe.Limits

/-!
# Calls and returns by hand

A return stack that holds data of any kind under a limit of any kind, and single transfers of control
at a counter of any kind.
-/

namespace FlowCheck.Probe

namespace Located

/-- A fault of a transfer under a limit of the return stack. -/
def transferFault (limit : Value) (l : Located) (f : Fault) : Failure :=
  match f.cause with
  | .returnStackFull _ =>
      match beyond limit f with
      | .ok f => l.fault f
      | .error m => .misuse m
  | _ => l.fault f

/-- Puts data on a return stack. -/
def pushReturn (limit : Value) (l : Located) (calls : ReturnStack Value) (v : Value) :
    Except Failure (ReturnStack Value) :=
  match Machine.pushReturn (amountOf limit) l.instruction calls v with
  | .ok calls => .ok calls
  | .error f => .error (l.transferFault limit f)

/-- Takes data from a return stack. -/
def popReturn (l : Located) (calls : ReturnStack Value) :
    Except Failure (Value × ReturnStack Value) :=
  match Machine.popReturn l.instruction calls with
  | .ok r => .ok r
  | .error f => .error (l.fault f)

/-- Carries out a transfer of control and yields the next counter. -/
def transfer (limit : Value) (l : Located) (action : Machine.Action Nat) (s : Machine.State) :
    Except Failure Value × Machine.State :=
  match action.run { s with pc := l.instruction.pc } with
  | .ok n s' => (.ok (if n = l.instruction.next then l.next else .nat n), s')
  | .error f s' => (.error (l.transferFault limit f), s')

end Located

end FlowCheck.Probe
