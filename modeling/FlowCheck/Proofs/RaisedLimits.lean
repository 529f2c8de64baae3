import FlowCheck.Proofs.Data

/-!
# Raised limits

Limits only ever end a run early.  Every action ends alike under larger limits unless it fails at a
smaller one (`Settles`), so a run that ended for another reason ends in the same way under larger
limits, and a run that used its steps up stands where a longer one passes through.
-/

namespace FlowCheck

/-- The kinds of faults that a larger limit may put off. -/
def FaultKind.isLimit : FaultKind → Bool
  | outOfSteps | stackOverflow | returnStackOverflow | memoryLimitExceeded => true
  | invalidInstruction | invalidJumpDestination | returnStackUnderflow | stackUnderflow
  | unsupportedInstruction => false

namespace Machine

variable {host host' : Host} {budget budget' : Amount} {i : Instruction} {s s' : State}
  {n n' : Nat} {α β : Type}

/-- The kind of the fault that a run ended with. -/
def Outcome.faultKind? (o : Outcome) : Option FaultKind :=
  match o.ending with
  | .halted .. => none
  | .faulted f => some f.cause.kind

/-- Whether a run ended at one of its limits. -/
def Outcome.atLimit (o : Outcome) : Bool :=
  o.faultKind?.any FaultKind.isLimit

/-- The second host differs from the first in its limits alone, and none of them is smaller. -/
structure Raises (host host' : Host) : Prop where
  program : host'.program = host.program
  table : host'.table = host.table
  calldata : host'.calldata = host.calldata
  callValue : host'.callValue = host.callValue
  stack : host.stackLimit.ceil ≤ host'.stackLimit.ceil
  calls : host.returnLimit.ceil ≤ host'.returnLimit.ceil
  memory : host.memoryLimit.floor ≤ host'.memoryLimit.floor

/-! ## Actions -/

/-- From a state the two actions end alike, or the first one fails at a limit. -/
def Settles (s : State) (m m' : Action α) : Prop :=
  m'.run s = m.run s ∨ ∃ f s', m.run s = .error f s' ∧ f.cause.kind.isLimit = true

namespace Settles

theorem refl (m : Action α) : Settles s m m :=
  Or.inl rfl

theorem of_limit {f : Fault} {m' : Action α} (h : f.cause.kind.isLimit = true) :
    Settles s (throw f) m' :=
  Or.inr ⟨f, s, rfl, h⟩

theorem of_get {k k' : State → Action α} (h : Settles s (k s) (k' s)) :
    Settles s (get >>= k) (get >>= k') := h

theorem of_bind {m m' : Action α} {k k' : α → Action β} (hm : Settles s m m')
    (hk : ∀ a s', Settles s' (k a) (k' a)) : Settles s (m >>= k) (m' >>= k') := by
  unfold Settles
  rw [EStateM.run_bind, EStateM.run_bind]
  rcases hm with heq | ⟨f, s', hfails, hlimit⟩
  · rw [heq]
    cases m.run s with
    | ok a s' => exact hk a s'
    | error f s' => exact Or.inl rfl
  · rw [hfails]
    exact Or.inr ⟨f, s', rfl, hlimit⟩

end Settles

section

variable (h : Raises host host')

include h

theorem Raises.fault (s : State) (cause : FaultCause) :
    s.fault host' cause = s.fault host cause := by
  simp only [State.fault, h.program]

theorem Raises.pop : pop host' = pop host := by
  simp only [Machine.pop, h.fault]

theorem Raises.peek (depth : Nat) : peek host' depth = peek host depth := by
  simp only [Machine.peek, h.fault]

theorem Raises.checkEdge (i : Instruction) (dest : Nat) :
    checkEdge host' i dest = checkEdge host i dest := by
  simp only [Machine.checkEdge, h.table]

theorem Raises.checkJump (i : Instruction) (dest : Nat) :
    checkJump host' i dest = checkJump host i dest := by
  simp only [Machine.checkJump, h.checkEdge, h.program]

theorem settles_push (w : Word) : Settles s (push host w) (push host' w) := by
  apply Settles.of_get
  have hraised := h.stack
  by_cases hfull : host.stackLimit.ceil ≤ s.stack.height
  · rw [if_pos hfull]
    exact Settles.of_limit rfl
  · rw [if_neg hfull, if_neg (by omega)]
    exact Settles.refl _

theorem settles_touch (size : Nat) : Settles s (touch host size) (touch host' size) := by
  apply Settles.of_get
  have hraised := h.memory
  by_cases hover : host.memoryLimit.floor < size
  · rw [if_pos hover]
    exact Settles.of_limit rfl
  · rw [if_neg hover, if_neg (by omega)]
    exact Settles.refl _

theorem settles_readMemory (offset size : Nat) :
    Settles s (readMemory host offset size) (readMemory host' offset size) := by
  unfold readMemory
  split
  · exact Settles.refl _
  · exact Settles.of_bind (settles_touch h _) (fun _ _ => Settles.refl _)

theorem settles_storeBytes (offset : Nat) (bs : List UInt8) :
    Settles s (storeBytes host offset bs) (storeBytes host' offset bs) :=
  Settles.of_bind (settles_touch h _) (fun _ _ => Settles.refl _)

theorem settles_haltWith (reason : HaltReason) :
    Settles s (haltWith host reason) (haltWith host' reason) := by
  unfold haltWith
  rw [h.pop]
  refine Settles.of_bind (Settles.refl _) (fun offset _ => ?_)
  refine Settles.of_bind (Settles.refl _) (fun size _ => ?_)
  exact Settles.of_bind (settles_readMemory h _ _) (fun _ _ => Settles.refl _)

theorem settles_compute (i : Instruction) : Settles s (compute host i) (compute host' i) := by
  -- operands are taken alike, so that only a push or an access to memory can tell the hosts apart
  have popped : ∀ {α : Type} {s : State} {k k' : Word → Action α},
      (∀ w s', Settles s' (k w) (k' w)) → Settles s (pop host >>= k) (pop host' >>= k') := by
    intro α s k k' hk
    rw [h.pop]
    exact Settles.of_bind (Settles.refl _) hk
  unfold compute
  cases i.opcode
  case push | pc => exact settles_push h _
  case codesize =>
    dsimp only
    rw [h.program]
    exact settles_push h _
  case calldatasize =>
    dsimp only
    rw [h.calldata]
    exact settles_push h _
  case callvalue =>
    dsimp only
    rw [h.callValue]
    cases host.callValue with
    | some n => exact settles_push h _
    | none => exact Settles.refl _
  case unary => exact popped (fun _ _ => settles_push h _)
  case binary => exact popped (fun _ _ => popped (fun _ _ => settles_push h _))
  case ternary =>
    exact popped (fun _ _ => popped (fun _ _ => popped (fun _ _ => settles_push h _)))
  case calldataload =>
    refine popped (fun offset _ => ?_)
    rw [inputWord, inputWord, h.calldata]
    exact settles_push h _
  case dup n =>
    show Settles s (peek host n.val >>= push host) (peek host' n.val >>= push host')
    rw [h.peek]
    exact Settles.of_bind (Settles.refl _) (fun _ _ => settles_push h _)
  case swap n =>
    dsimp only [swap]
    rw [h.peek]
    exact Settles.refl _
  case pop => exact popped (fun _ _ => Settles.refl _)
  case mload =>
    refine popped (fun offset _ => Settles.of_bind ?_ (fun _ _ => settles_push h _))
    exact Settles.of_bind (settles_readMemory h _ _) (fun _ _ => Settles.refl _)
  case mstore | mstore8 =>
    exact popped (fun _ _ => popped (fun _ _ => settles_storeBytes h _ _))
  case msize => exact Settles.of_get (settles_push h _)
  all_goals exact Settles.refl _

theorem settles_jumpSub (i : Instruction) : Settles s (jumpSub host i) (jumpSub host' i) := by
  have htarget : callTarget host' i = callTarget host i := by
    simp only [callTarget, h.pop, h.checkEdge]
  unfold jumpSub
  rw [htarget, h.program]
  refine Settles.of_bind (Settles.refl _) (fun target s => ?_)
  dsimp only
  split
  · exact Or.inl rfl
  · apply Settles.of_get
    have hraised := h.calls
    unfold pushReturn
    by_cases hfull : host.returnLimit.ceil ≤ s.calls.stack.height
    · rw [if_pos hfull]
      exact Settles.of_limit rfl
    · rw [if_neg hfull, if_neg (by omega)]
      exact Settles.refl _

theorem settles_step (i : Instruction) : Settles s (step host i) (step host' i) := by
  unfold step control?
  cases i.descriptor.kind with
  | beginsub | returnsub => exact Settles.refl _
  | jumpsub => exact Settles.of_bind (settles_jumpSub h i) (fun _ _ => Settles.refl _)
  | jump =>
      simp only [jump, h.pop, h.checkJump]
      exact Settles.refl _
  | jumpi =>
      simp only [jumpIf, h.pop, h.checkJump]
      exact Settles.refl _
  | plain | terminal | push =>
      dsimp only
      split
      · exact Settles.refl _
      · exact settles_haltWith h _
      · exact settles_haltWith h _
      · exact Settles.of_bind (settles_compute h i) (fun _ _ => Settles.refl _)

end

/-! ## Runs -/

/-- A run at a state cannot decode, is behind the code, or executes an instruction. -/
theorem head_cases (host : Host) (s : State) :
    (∃ r, host.program.decode s.pc = .error r) ∨ host.program.length ≤ s.pc ∨
      ∃ next s', Leaves host s next s' := by
  cases hdecode : host.program.decode s.pc with
  | error r => exact Or.inl ⟨r, rfl⟩
  | ok i =>
      right
      rcases Nat.lt_or_ge s.pc host.program.length with hpc | hpc
      · right
        cases hrun : (step host i).run { s with steps := s.steps + 1 } with
        | ok next s' => exact ⟨.ok next, s', i, hpc, hdecode, hrun⟩
        | error f s' => exact ⟨.error f, s', i, hpc, hdecode, hrun⟩
      · exact Or.inl hpc

theorem runFrom_of_undecodable {r : Rejection} (h : host.program.decode s.pc = .error r) :
    runFrom host budget n s = ⟨.faulted ⟨.undecodable r.cause, some s.pc, r.offender⟩, s⟩ := by
  rw [runFrom, h]

theorem runFrom_of_length_le (h : host.program.length ≤ s.pc) :
    runFrom host budget n s = ⟨.halted .endOfCode #[], s⟩ := by
  rw [runFrom, Program.decode_of_length_le h]
  rfl

theorem runFrom_zero_of_leaves (budget : Amount) {next : Except Fault Next}
    (h : Leaves host s next s') :
    ∃ i, runFrom host budget 0 s = ⟨.faulted (faultAt i (.outOfSteps budget)), s⟩ := by
  obtain ⟨i, hpc, hdecode, -⟩ := h
  have himplicit : ¬ i.implicit = true := by
    rw [Program.decode_implicit_iff hdecode]
    omega
  refine ⟨i, ?_⟩
  rw [runFrom, hdecode]
  simp only [himplicit, Bool.false_eq_true, if_false]

/-- An instruction does the same under larger limits, unless it fails at one. -/
theorem Leaves.raise {next : Except Fault Next} (hleaves : Leaves host s next s')
    (h : Raises host host') :
    Leaves host' s next s' ∨ ∃ f, next = .error f ∧ f.cause.kind.isLimit = true := by
  obtain ⟨i, hpc, hdecode, hrun⟩ := hleaves
  rcases settles_step (s := { s with steps := s.steps + 1 }) h i with heq | ⟨f, t, hfails, hlimit⟩
  · left
    refine ⟨i, ?_, ?_, heq.trans hrun⟩
    · rw [h.program]
      exact hpc
    · rw [h.program]
      exact hdecode
  · right
    rw [hfails] at hrun
    cases next with
    | ok next => cases hrun
    | error f' =>
        cases hrun
        exact ⟨f, rfl, hlimit⟩

/-- A run is the same with larger limits and more steps, unless it ends at a limit. -/
theorem runFrom_raise (h : Raises host host') (hn : n ≤ n') :
    (runFrom host budget n s).atLimit = true ∨
      runFrom host' budget' n' s = runFrom host budget n s := by
  induction n using Nat.strongRecOn generalizing n' s with
  | ind n ih =>
      rcases head_cases host s with ⟨r, hdecode⟩ | hpc | ⟨next, s', hleaves⟩
      · right
        rw [runFrom_of_undecodable hdecode, runFrom_of_undecodable (h.program ▸ hdecode)]
      · right
        rw [runFrom_of_length_le hpc, runFrom_of_length_le (h.program ▸ hpc)]
      · cases n with
        | zero =>
            left
            obtain ⟨i, hrun⟩ := runFrom_zero_of_leaves budget hleaves
            rw [hrun]
            rfl
        | succ n =>
            obtain ⟨m, rfl⟩ : ∃ m, n' = m + 1 := ⟨n' - 1, by omega⟩
            rw [runFrom_of_leaves hleaves]
            rcases hleaves.raise h with hleaves' | ⟨f, rfl, hlimit⟩
            · rw [runFrom_of_leaves hleaves']
              cases next with
              | error f => exact Or.inr rfl
              | ok next =>
                  cases next with
                  | halt reason data => exact Or.inr rfl
                  | goto pc => exact ih n (by omega) (by omega)
            · exact Or.inl hlimit

/-! ## Steps used up -/

theorem Failing.kind_ne_outOfSteps {f : Fault} (h : Failing host i s f) :
    f.cause.kind ≠ .outOfSteps := by
  cases h with
  | short hkind | full hkind | memory hkind | unsupported hkind =>
      rw [hkind]
      decide
  | undeclared | notJumpdest | notEntry | returnsFull | returnsEmpty =>
      intro hkind
      cases hkind

/-- A run that has used its steps up has passed through that many iterations. -/
theorem iterations_of_outOfSteps
    (hkind : (runFrom host budget n s).faultKind? = some .outOfSteps) :
    (iterations host n s)[n]? = some (runFrom host budget n s).state := by
  induction n generalizing s with
  | zero =>
      rw [state_runFrom_zero, iterations]
      rfl
  | succ n ih =>
      rcases head_cases host s with ⟨r, hdecode⟩ | hpc | ⟨next, s', hleaves⟩
      · rw [runFrom_of_undecodable hdecode] at hkind
        cases hkind
      · rw [runFrom_of_length_le hpc] at hkind
        cases hkind
      · rw [runFrom_of_leaves hleaves] at hkind ⊢
        rw [iterations_of_leaves hleaves, List.getElem?_cons_succ]
        cases next with
        | error f =>
            obtain ⟨i, -, -, hfails⟩ := hleaves.fails
            exact absurd (Option.some.inj hkind) hfails.cause.kind_ne_outOfSteps
        | ok next =>
            cases next with
            | halt reason data => cases hkind
            | goto pc => exact ih hkind

/-- With more steps a run goes through the same iterations first. -/
theorem iterations_extend (hn : n ≤ n') : iterations host n s <+: iterations host n' s := by
  induction n using Nat.strongRecOn generalizing n' s with
  | ind n ih =>
      rcases iterations_cases host n s with ⟨hlast, -⟩ | ⟨m, s', rfl, ⟨pc, t, hleaves, rfl⟩, hnext, -⟩
      · rw [hlast, iterations]
        exact ⟨_, rfl⟩
      · obtain ⟨m', rfl⟩ : ∃ m', n' = m' + 1 := ⟨n' - 1, by omega⟩
        rw [hnext, iterations_of_leaves hleaves]
        exact (List.prefix_cons_inj s).2 (ih m (by omega) (by omega))

theorem steps_of_iterations {t : State} (h : (iterations host n {})[n']? = some t) :
    t.steps = n' := by
  obtain ⟨hlt, hget⟩ := List.getElem?_eq_some_iff.1 h
  have hsplit : iterations host n {} = (iterations host n {}).take n' ++
      t :: (iterations host n {}).drop (n' + 1) := by
    rw [← hget, ← List.drop_eq_getElem_cons hlt, List.take_append_drop]
  obtain ⟨hpassed, -⟩ := passed_of_iterations .start hsplit
  rw [hpassed.within.2, List.nil_append, List.length_take]
  omega

end Machine

namespace Probe

open Machine

variable {l m : Limits} {host : Host} {o : Outcome} {f f' : Fault}

/-- A fault that is reported under limits is of the same kind, and is the same one unless it is about
a limit. -/
theorem Limits.interpret_ok (h : l.interpret o f = .ok f') :
    f'.cause.kind = f.cause.kind ∧ (f.cause.kind.isLimit = false → f' = f) := by
  have hbeyond : ∀ {limit : Value} {g : Fault}, beyond limit g = .ok f' → f' = g := by
    intro limit g hg
    unfold beyond at hg
    split at hg
    · cases hg
    · split at hg <;> cases hg
      rfl
  unfold interpret at h
  cases hcause : f.cause <;> simp only [hcause] at h
  case stackFull | returnStackFull | outOfSteps =>
    obtain rfl := hbeyond h
    exact ⟨by rw [hcause], fun _ => rfl⟩
  case valueNotWhole => cases h
  case memoryLimit size limit =>
    split at h
    · cases h
    · split at h
      · obtain rfl := hbeyond h
        exact ⟨rfl, fun hlimit => by cases hlimit⟩
      · cases h
  all_goals
    cases h
    exact ⟨by rw [hcause], fun _ => rfl⟩

/-- The outcome under limits is that of the machine, with its fault as it is reported. -/
theorem Limits.run_ok (h : l.run host = .ok o) :
    ∃ ending, Machine.run (l.applyTo host) (amountOf l.steps) = ⟨ending, o.state⟩ ∧
      ((∃ reason data, ending = .halted reason data ∧ o.ending = ending) ∨
        ∃ f f', ending = .faulted f ∧ o.ending = .faulted f' ∧
          l.interpret ⟨ending, o.state⟩ f = .ok f') := by
  unfold run at h
  generalize Machine.run (l.applyTo host) (amountOf l.steps) = outcome at h
  obtain ⟨ending, state⟩ := outcome
  cases ending with
  | halted reason data =>
      cases h
      exact ⟨_, rfl, Or.inl ⟨reason, data, rfl, rfl⟩⟩
  | faulted f =>
      dsimp only at h
      cases hinterpret : l.interpret ⟨.faulted f, state⟩ f with
      | error e =>
          rw [hinterpret] at h
          cases h
      | ok f' =>
          rw [hinterpret] at h
          cases h
          exact ⟨_, rfl, Or.inr ⟨f, f', rfl, rfl, hinterpret⟩⟩

theorem Limits.interpret_of_not_limit (hlimit : f.cause.kind.isLimit = false)
    (hvalue : f.cause ≠ .valueNotWhole) : l.interpret o f = .ok f := by
  unfold interpret
  cases hcause : f.cause <;> rw [hcause] at hlimit hvalue
  case stackFull | returnStackFull | outOfSteps | memoryLimit => cases hlimit
  case valueNotWhole => exact absurd rfl hvalue

/-- Of a run that ended at no limit the report is the outcome of the machine. -/
theorem Limits.run_eq_ok_iff (ho : o.atLimit = false) :
    l.run host = .ok o ↔ Machine.run (l.applyTo host) (amountOf l.steps) = o ∧
      ∀ f, o.ending = .faulted f → f.cause ≠ .valueNotWhole := by
  obtain ⟨ending, state⟩ := o
  constructor
  · intro h
    obtain ⟨ending', hrun, hcases⟩ := run_ok h
    rcases hcases with ⟨reason, data, rfl, rfl⟩ | ⟨f, f', rfl, rfl, hinterpret⟩
    · exact ⟨hrun, fun f hf => by cases hf⟩
    · obtain ⟨hkind, hsame⟩ := interpret_ok hinterpret
      change f'.cause.kind.isLimit = false at ho
      rw [hkind] at ho
      obtain rfl := hsame ho
      refine ⟨hrun, fun g hg hvalue => ?_⟩
      cases hg
      rw [interpret, hvalue] at hinterpret
      cases hinterpret
  · rintro ⟨hrun, hvalue⟩
    unfold run
    rw [hrun]
    cases ending with
    | halted reason data => rfl
    | faulted f =>
        dsimp only
        rw [interpret_of_not_limit ho (hvalue f rfl)]
        rfl

theorem Limits.faultKind?_of_run (h : l.run host = .ok o) :
    (Machine.run (l.applyTo host) (amountOf l.steps)).faultKind? = o.faultKind? := by
  obtain ⟨ending, state⟩ := o
  obtain ⟨ending', hrun, hcases⟩ := run_ok h
  rw [hrun]
  rcases hcases with ⟨reason, data, rfl, rfl⟩ | ⟨f, f', rfl, rfl, hinterpret⟩
  · rfl
  · exact congrArg some (interpret_ok hinterpret).1.symm

namespace WholeLimits

variable {l m : WholeLimits}

/-- No limit of the first is larger than that of the second, nor is the room, and the value sent
along is the same. -/
structure Below (l m : WholeLimits) : Prop where
  stack : l.stack ≤ m.stack
  calls : l.calls ≤ m.calls
  memory : l.memory ≤ m.memory
  steps : l.steps ≤ m.steps
  value : l.value = m.value
  room : l.room.bytes ≤ m.room.bytes

theorem Below.raises (h : l.Below m) (host : Host) :
    Raises (l.toLimits.applyTo host) (m.toLimits.applyTo host) where
  program := rfl
  table := rfl
  calldata := rfl
  callValue := by
    show some m.value = some l.value
    rw [h.value]
  stack := h.stack
  calls := h.calls
  memory := by
    show l.toLimits.memoryAmount.floor ≤ m.toLimits.memoryAmount.floor
    rw [memoryAmount_toLimits, memoryAmount_toLimits, Amount.floor_whole, Amount.floor_whole]
    have hmemory := h.memory
    have hroom := Nat.div_le_div_right h.room (c := 32)
    unfold Room.wholeWords
    omega

/-- Larger limits change nothing about a run that ended for another reason than a limit.  A run that
used its steps up executed as many as it had, and ends with the state that a run with more steps has
behind as many. -/
theorem run_of_below (l : WholeLimits) (host : Host) :
    (∀ m o, l.Below m → l.toLimits.run host = .ok o → o.atLimit = false →
      m.toLimits.run host = .ok o) ∧
    ∀ (n : Nat) o, l.steps = n → l.toLimits.run host = .ok o →
      o.faultKind? = some .outOfSteps →
        o.state.steps = n ∧
          ∀ n' ≥ n, (iterations (l.toLimits.applyTo host) n' {})[n]? = some o.state := by
  constructor
  · intro m o hbelow hrun hlimit
    obtain ⟨hmachine, hvalue⟩ := (Limits.run_eq_ok_iff hlimit).1 hrun
    refine (Limits.run_eq_ok_iff hlimit).2 ⟨?_, hvalue⟩
    have hsteps : l.steps.toNat ≤ m.steps.toNat := Int.toNat_le_toNat hbelow.steps
    subst hmachine
    exact (runFrom_raise (hbelow.raises host) hsteps).resolve_left (Bool.eq_false_iff.1 hlimit)
  · intro n o hsteps hrun hkind
    have hbudget : (amountOf l.toLimits.steps).ceil.toNat = n := by
      show l.steps.toNat = n
      omega
    -- the report has the state of the machine, which has passed through all its steps
    obtain ⟨ending, hmachine, -⟩ := Limits.run_ok hrun
    rw [← Limits.faultKind?_of_run hrun, Machine.run, hbudget] at hkind
    rw [Machine.run, hbudget] at hmachine
    have hpassed := iterations_of_outOfSteps hkind
    rw [hmachine] at hpassed
    refine ⟨steps_of_iterations hpassed, fun n' hn' => ?_⟩
    obtain ⟨hlt, hget⟩ := List.getElem?_eq_some_iff.1 hpassed
    rw [← hget]
    exact List.prefix_iff_getElem?.1 (iterations_extend hn') n hlt

end WholeLimits

namespace Sample

/-- Larger limits than the tight ones. -/
def loose : WholeLimits :=
  ⟨3, 5, 2 ^ 40, 1000, -1, room⟩

/-- The tight limits with one step less than the program needs. -/
def hasty : WholeLimits :=
  { tight with steps := 3 }

end Sample

theorem ok_of_faultKind? (l : Limits) (host : Host) (kind : Option FaultKind)
    (h : (l.run host).toOption.map Outcome.faultKind? = some kind) :
    ∃ o, l.run host = .ok o ∧ o.faultKind? = kind := by
  cases hrun : l.run host with
  | ok o =>
      rw [hrun] at h
      exact ⟨o, rfl, Option.some.inj h⟩
  | error e =>
      rw [hrun] at h
      cases h

theorem run_of_below_straddling :
    Sample.tight.Below Sample.loose ∧
      (∃ o, Sample.tight.toLimits.run Sample.straddling = .ok o ∧ o.atLimit = false ∧
        Sample.loose.toLimits.run Sample.straddling = .ok o) ∧
      ∃ o, Sample.hasty.toLimits.run Sample.straddling = .ok o ∧ o.state.steps = 3 ∧
        (iterations (Sample.hasty.toLimits.applyTo Sample.straddling) 4 {})[3]? = some o.state := by
  have hbelow : Sample.tight.Below Sample.loose := by
    constructor <;> decide
  refine ⟨hbelow, ?_, ?_⟩
  · obtain ⟨o, hrun, hkind⟩ :=
      ok_of_faultKind? Sample.tight.toLimits Sample.straddling none (by decide +kernel)
    have hlimit : o.atLimit = false := by
      rw [Outcome.atLimit, hkind]
      rfl
    exact ⟨o, hrun, hlimit, (WholeLimits.run_of_below _ _).1 _ _ hbelow hrun hlimit⟩
  · obtain ⟨o, hrun, hkind⟩ :=
      ok_of_faultKind? Sample.hasty.toLimits Sample.straddling (some .outOfSteps)
        (by decide +kernel)
    obtain ⟨hsteps, hpassed⟩ := (WholeLimits.run_of_below _ _).2 3 o rfl hrun hkind
    exact ⟨o, hrun, hsteps, hpassed 4 (by decide)⟩

end Probe

end FlowCheck
