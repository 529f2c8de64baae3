import FlowCheck.Proofs.Execution
import Mathlib.Logic.Relation

/-!
# Runs

A run goes from state to state until it ends.  The states that it passes through are those reachable
by single instructions from the start, whatever its budget, and it ends at one of them (`run_ends`).
`iterations` lists them for a budget, by the recursion of the run itself.
-/

namespace FlowCheck.Machine

variable {host : Host} {budget : Amount} {s s' : State}

/-- The state that the instruction at a state leaves, and what follows it if it does not fail. -/
def Leaves (host : Host) (s : State) (next : Except Fault Next) (s' : State) : Prop :=
  ∃ i, s.pc < host.program.length ∧ host.program.decode s.pc = .ok i ∧
    (step host i).run { s with steps := s.steps + 1 } =
      match next with
      | .ok n => .ok n s'
      | .error f => .error f s'

theorem Leaves.effect {next : Next} (h : Leaves host s (.ok next) s') :
    ∃ i, s.pc < host.program.length ∧ host.program.decode s.pc = .ok i ∧
      Effect host i { s with steps := s.steps + 1 } next s' := by
  obtain ⟨i, hpc, hdecoded, hrun⟩ := h
  exact ⟨i, hpc, hdecoded, (ensures_step hpc hdecoded).of_ok hrun⟩

theorem Leaves.fails {f : Fault} (h : Leaves host s (.error f) s') :
    ∃ i, s.pc < host.program.length ∧ host.program.decode s.pc = .ok i ∧
      Fails host i { s with steps := s.steps + 1 } f s' := by
  obtain ⟨i, hpc, hdecoded, hrun⟩ := h
  exact ⟨i, hpc, hdecoded, (ensures_step hpc hdecoded).of_error hrun⟩

/-- One instruction moves a run on. -/
def Advances (host : Host) (s s' : State) : Prop :=
  ∃ pc s₁, Leaves host s (.ok (.goto pc)) s₁ ∧ s' = { s₁ with pc := pc }

/-- The states that runs pass through. -/
def Reachable (host : Host) : State → Prop :=
  Relation.ReflTransGen (Advances host) {}

/-- How a run ends at a state. -/
inductive Ends (host : Host) (budget : Amount) (s : State) : Outcome → Prop
  | undecodable {r : Rejection} (hdecode : host.program.decode s.pc = .error r) :
      Ends host budget s ⟨.faulted ⟨.undecodable r.cause, some s.pc, r.offender⟩, s⟩
  | endOfCode (hpc : host.program.length ≤ s.pc) :
      Ends host budget s ⟨.halted .endOfCode #[], s⟩
  | outOfSteps {i : Instruction} (hpc : s.pc < host.program.length)
      (hdecode : host.program.decode s.pc = .ok i) :
      Ends host budget s ⟨.faulted (faultAt i (.outOfSteps budget)), s⟩
  | faulted {f : Fault} {s' : State} (hleaves : Leaves host s (.error f) s') :
      Ends host budget s ⟨.faulted f, s'⟩
  | halted {reason : HaltReason} {data : Array UInt8} {s' : State}
      (hleaves : Leaves host s (.ok (.halt reason data)) s') :
      Ends host budget s ⟨.halted reason data, s'⟩

/-- The state that a run ends with: the one it ends at, or what an instruction leaves of it that
halts or fails. -/
theorem Ends.state {o : Outcome} (h : Ends host budget s o) :
    o.state = s ∨ (∃ next, Leaves host s next o.state) ∧ o.state.calls = s.calls := by
  cases h with
  | undecodable _ => exact Or.inl rfl
  | endOfCode _ => exact Or.inl rfl
  | outOfSteps _ _ => exact Or.inl rfl
  | faulted hleaves =>
      obtain ⟨i, -, -, hfails⟩ := hleaves.fails
      exact Or.inr ⟨⟨_, hleaves⟩, hfails.calls⟩
  | halted hleaves =>
      obtain ⟨i, -, -, heffect⟩ := hleaves.effect
      cases heffect with
      | halted _ _ hcalls => exact Or.inr ⟨⟨_, hleaves⟩, hcalls⟩

/-- How a run goes on behind an instruction. -/
def goOn (host : Host) (budget : Amount) (remaining : Nat) (s : State) :
    Except Fault Next → Outcome
  | .error f => ⟨.faulted f, s⟩
  | .ok (.halt reason data) => ⟨.halted reason data, s⟩
  | .ok (.goto pc) => runFrom host budget remaining { s with pc := pc }

theorem runFrom_of_leaves {remaining : Nat} {next : Except Fault Next} (h : Leaves host s next s') :
    runFrom host budget (remaining + 1) s = goOn host budget remaining s' next := by
  obtain ⟨i, hpc, hdecode, hrun⟩ := h
  have himplicit : i.implicit = false := by
    cases himp : i.implicit with
    | false => rfl
    | true => exact absurd ((Program.decode_implicit_iff hdecode).1 himp) (Nat.not_le.2 hpc)
  rw [runFrom, hdecode]
  simp only [himplicit, Bool.false_eq_true, if_false, hrun]
  cases next with
  | error f => rfl
  | ok next => cases next <;> rfl

theorem runFrom_of_advances {remaining : Nat} (h : Advances host s s') :
    runFrom host budget (remaining + 1) s = runFrom host budget remaining s' := by
  obtain ⟨pc, s₁, hleaves, rfl⟩ := h
  exact runFrom_of_leaves hleaves

/-! ## Iterations -/

/-- The states at the head of each iteration of a run from a state, with so many steps left. -/
def iterations (host : Host) : (remaining : Nat) → State → List State
  | remaining, s =>
      s ::
        match host.program.decode s.pc with
        | .error _ => []
        | .ok i =>
            if i.implicit then []
            else
              match remaining with
              | 0 => []
              | remaining + 1 =>
                  match (step host i).run { s with steps := s.steps + 1 } with
                  | .ok (.goto pc) s' => iterations host remaining { s' with pc := pc }
                  | _ => []

/-- The iterations behind an instruction. -/
def furtherIterations (host : Host) (remaining : Nat) (s : State) :
    Except Fault Next → List State
  | .ok (.goto pc) => iterations host remaining { s with pc := pc }
  | _ => []

theorem iterations_of_leaves {n : Nat} {next : Except Fault Next} (h : Leaves host s next s') :
    iterations host (n + 1) s = s :: furtherIterations host n s' next := by
  obtain ⟨i, hpc, hdecode, hrun⟩ := h
  have himplicit : i.implicit = false := by
    cases himp : i.implicit with
    | false => rfl
    | true => exact absurd ((Program.decode_implicit_iff hdecode).1 himp) (Nat.not_le.2 hpc)
  rw [iterations, hdecode]
  simp only [himplicit, Bool.false_eq_true, if_false, hrun]
  cases next with
  | error f => rfl
  | ok next => cases next <;> rfl

/-- A run ends in an iteration or goes on from it. -/
theorem iterations_cases (host : Host) (remaining : Nat) (s : State) :
    (iterations host remaining s = [s] ∧
      ∀ budget, Ends host budget s (runFrom host budget remaining s)) ∨
    ∃ n s', remaining = n + 1 ∧ Advances host s s' ∧
      iterations host remaining s = s :: iterations host n s' ∧
      ∀ budget, runFrom host budget remaining s = runFrom host budget n s' := by
  cases hdecode : host.program.decode s.pc with
  | error r =>
      refine Or.inl ⟨?_, fun budget => ?_⟩
      · rw [iterations, hdecode]
      · rw [runFrom, hdecode]
        exact .undecodable hdecode
  | ok i =>
      by_cases himplicit : i.implicit = true
      · refine Or.inl ⟨?_, fun budget => ?_⟩
        · rw [iterations, hdecode]
          simp only [himplicit, if_true]
        · rw [runFrom, hdecode]
          simp only [himplicit, if_true]
          exact .endOfCode ((Program.decode_implicit_iff hdecode).1 himplicit)
      · have hpc : s.pc < host.program.length :=
          Nat.lt_of_not_le (fun hle => himplicit ((Program.decode_implicit_iff hdecode).2 hle))
        cases remaining with
        | zero =>
            refine Or.inl ⟨?_, fun budget => ?_⟩
            · rw [iterations, hdecode]
              simp only [himplicit, Bool.false_eq_true, if_false]
            · rw [runFrom, hdecode]
              simp only [himplicit, Bool.false_eq_true, if_false]
              exact .outOfSteps hpc hdecode
        | succ n =>
            -- the instruction is executed, and only one that yields a counter goes on
            cases hrun : (step host i).run { s with steps := s.steps + 1 } with
            | error f s' =>
                have hleaves : Leaves host s (.error f) s' := ⟨i, hpc, hdecode, hrun⟩
                refine Or.inl ⟨iterations_of_leaves hleaves, fun budget => ?_⟩
                rw [runFrom_of_leaves hleaves]
                exact .faulted hleaves
            | ok next s' =>
                have hleaves : Leaves host s (.ok next) s' := ⟨i, hpc, hdecode, hrun⟩
                cases next with
                | halt reason data =>
                    refine Or.inl ⟨iterations_of_leaves hleaves, fun budget => ?_⟩
                    rw [runFrom_of_leaves hleaves]
                    exact .halted hleaves
                | goto pc =>
                    exact Or.inr ⟨n, { s' with pc := pc }, rfl, ⟨pc, s', hleaves, rfl⟩,
                      iterations_of_leaves hleaves, fun budget => runFrom_of_leaves hleaves⟩

/-- A run ends at a state that it can reach. -/
theorem runFrom_ends (host : Host) (budget : Amount) (remaining : Nat) (hs : Reachable host s) :
    ∃ t, Reachable host t ∧ Ends host budget t (runFrom host budget remaining s) := by
  -- induction on the remaining steps, for any reachable state that the run may be at
  induction remaining using Nat.strongRecOn generalizing s with
  | ind remaining ih =>
      rcases iterations_cases host remaining s with ⟨-, hends⟩ | ⟨n, s', hn, hadvance, -, hrun⟩
      · exact ⟨s, hs, hends budget⟩
      · rw [hrun budget]
        exact ih n (by omega) (hs.tail hadvance)

theorem run_ends (host : Host) (budget : Amount) :
    ∃ s, Reachable host s ∧ Ends host budget s (run host budget) :=
  runFrom_ends host budget _ Relation.ReflTransGen.refl

/-- A run that faults does so at a state that it can reach. -/
theorem run_faulted {e : Fault} (h : (run host budget).ending = .faulted e) :
    ∃ s state, Reachable host s ∧ Ends host budget s ⟨.faulted e, state⟩ := by
  obtain ⟨s, hs, hends⟩ := run_ends host budget
  refine ⟨s, (run host budget).state, hs, ?_⟩
  rw [← h]
  exact hends

end FlowCheck.Machine
