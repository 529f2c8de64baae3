import FlowCheck.Proofs.Steady

/-!
# What a run has passed

Each iteration of a run comes from the start by single instructions through those before it
(`Passed`), and the run ends at the last one.  An invariant of runs that looks back at what was
executed is shown once, along `Passed`.
-/

namespace FlowCheck.Machine

variable {host : Host} {budget : Amount} {s s' : State} {past : List State}

/-- A run has come from the start through the states `past` to a state. -/
inductive Passed (host : Host) : List State → State → Prop
  | start : Passed host [] {}
  | step {past : List State} {s s' : State} (h : Passed host past s)
      (hadvance : Advances host s s') : Passed host (past ++ [s]) s'

theorem passed_of_iterations {before past rest : List State} {s₀ : State} {n : Nat}
    (hbefore : Passed host before s₀) (h : iterations host n s₀ = past ++ s :: rest) :
    Passed host (before ++ past) s ∧ past.length ≤ n := by
  induction n using Nat.strongRecOn generalizing before s₀ past with
  | ind n ih =>
      cases past with
      | nil =>
          -- the first iteration is the state that the run is at
          obtain ⟨tail, htail⟩ : ∃ tail, iterations host n s₀ = s₀ :: tail := by
            rw [iterations]
            exact ⟨_, rfl⟩
          rw [htail] at h
          cases h
          rw [List.append_nil]
          exact ⟨hbefore, Nat.zero_le n⟩
      | cons t past =>
          rcases iterations_cases host n s₀ with ⟨hlast, -⟩ | ⟨m, s', hm, hadvance, hnext, -⟩
          · rw [hlast] at h
            simp at h
          · rw [hnext] at h
            obtain ⟨rfl, htail⟩ := List.cons.inj h
            obtain ⟨hpassed, hlength⟩ := ih m (by omega) (hbefore.step hadvance) htail
            rw [List.append_assoc, List.singleton_append] at hpassed
            refine ⟨hpassed, ?_⟩
            rw [List.length_cons]
            omega

/-- A run ends at the last of its iterations. -/
theorem iterations_ends (host : Host) (budget : Amount) (n : Nat) (s : State) :
    ∃ past last, iterations host n s = past ++ [last] ∧
      Ends host budget last (runFrom host budget n s) := by
  induction n using Nat.strongRecOn generalizing s with
  | ind n ih =>
      rcases iterations_cases host n s with ⟨hlast, hends⟩ | ⟨m, s', hm, -, hnext, hrun⟩
      · exact ⟨[], s, hlast, hends budget⟩
      · obtain ⟨past, last, hiterations, hends⟩ := ih m (by omega) s'
        rw [hrun budget]
        exact ⟨s :: past, last, by rw [hnext, hiterations, List.cons_append], hends⟩

/-- Every iteration is within the limits, and has counted the ones before it. -/
theorem Passed.within (h : Passed host past s) : Within host s ∧ s.steps = past.length := by
  induction h with
  | start =>
      refine ⟨⟨?_, Memory.fits_empty _⟩, rfl⟩
      show ((0 : Nat) : Int) ≤ max 0 host.stackLimit.ceil
      omega
  | step h hadvance ih =>
      obtain ⟨hwithin, hsteps⟩ := ih
      obtain ⟨hcount, hkept⟩ := hadvance.within hwithin
      refine ⟨hkept, ?_⟩
      rw [List.length_append, List.length_singleton, ← hsteps]
      exact hcount

end FlowCheck.Machine
