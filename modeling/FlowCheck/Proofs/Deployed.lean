import FlowCheck.Deployment
import FlowCheck.Proofs.Soundness

/-!
# Deploying and running

A machine validates code under the stack limit that the settings give the validator, and runs it
under the stack limit of its own.  What the validation promises about the data stack carries over to
every run exactly if the first limit is not above the second (`agrees_iff`).  Where it is, code that
pushes one item more than the machine has room for is accepted and overflows.
-/

namespace FlowCheck

/-- Code of so many pushes, each of the byte that stands for a push. -/
def pushes (mode : OperandMode) (n : Nat) : Program :=
  Program.ofCode mode (Array.replicate (2 * n) 0x60)

/-- The push at an even place. -/
def pushAt (mode : OperandMode) (n k : Nat) : Instruction :=
  (pushes mode n).instructionOf (2 * k) (.push 0)

section

variable {mode : OperandMode} {n k : Nat}

theorem length_pushes : (pushes mode n).length = 2 * n :=
  Array.size_replicate

theorem descriptor_pushAt : (pushAt mode n k).descriptor = ⟨.push 0, 1, 0, 1, .push⟩ := by
  cases mode <;> rfl

theorem next_pushAt : (pushAt mode n k).next = 2 * (k + 1) := by
  rw [Instruction.next, descriptor_pushAt]
  rfl

theorem decode_pushes_of_stands (hk : k < n) (h : (pushes mode n).Stands (2 * k)) :
    (pushes mode n).decode (2 * k) = .ok (pushAt mode n k) := by
  have hlength : 2 * k < (pushes mode n).length := by
    rw [length_pushes]
    omega
  have hbyte : (pushes mode n).code[2 * k]? = some 0x60 := by
    show (Array.replicate (2 * n) (0x60 : UInt8))[2 * k]? = some 0x60
    rw [Array.getElem?_replicate, if_pos (by omega)]
  rw [Program.decode_eq_ok_iff hlength]
  exact ⟨0x60, .push 0, hbyte, h.resolve_right (Nat.not_le.2 hlength), rfl, rfl⟩

theorem stands_pushes (k : Nat) : (pushes mode n).Stands (2 * k) := by
  induction k with
  | zero => exact Program.stands_zero _
  | succ k ih =>
      by_cases hk : k < n
      · have hlength : 2 * k < (pushes mode n).length := by
          rw [length_pushes]
          omega
        exact Program.stands_next hlength (decode_pushes_of_stands hk ih)
      · right
        rw [length_pushes]
        omega

theorem decode_pushes (hk : k < n) : (pushes mode n).decode (2 * k) = .ok (pushAt mode n k) :=
  decode_pushes_of_stands hk (stands_pushes k)

end

/-! ## Validating pushes -/

namespace Validator

variable {mode : OperandMode} {n k : Nat} {limit factor : Int}

def pushJob (mode : OperandMode) (n : Nat) (limit factor : Int) : Job :=
  Job.make (pushes mode n) JumpTable.empty (.whole limit) (.whole factor)

/-- The depths at the first pushes. -/
def pushDepths : Nat → Std.HashMap Nat Int
  | 0 => {}
  | k + 1 => (pushDepths k).insert (2 * k) k

/-- The traversal behind so many pushes. -/
def pushState (k : Nat) : State where
  frames := ⟨[{ id := .main, depths := pushDepths k, high := k }]⟩
  worklist := []
  steps := k

theorem pushDepths_get {j : Nat} (k : Nat) (hj : k ≤ j) : (pushDepths k)[2 * j]? = none := by
  induction k with
  | zero => simp [pushDepths]
  | succ k ih =>
      rw [pushDepths, Std.HashMap.getElem?_insert, if_neg (by simp; omega)]
      exact ih (by omega)

theorem depth?_pushState (k : Nat) : (pushState k).frames.depth? .main (2 * k) = none :=
  pushDepths_get k (Nat.le_refl k)

theorem checkDepth_pushes (hk : k < n) (hlimit : (n : Int) ≤ limit) :
    (pushJob mode n limit factor).checkDepth .main (pushAt mode n k) k =
      .ok ((k : Int), ((k + 1 : Nat) : Int)) := by
  have hfloor : (pushJob mode n limit factor).limit.floor = limit := rfl
  rw [checkDepth_eq_ok_iff, descriptor_pushAt, hfloor]
  simp only [Descriptor.delta]
  omega

theorem visit_pushes (known : Constants) (hk : k < n) (hlimit : (n : Int) ≤ limit)
    (hfactor : 1 ≤ factor) :
    Ensures (visit (pushJob mode n limit factor) .main (2 * k) k known) (pushState k)
      (fun on s' => ∃ known', on = some ⟨1, (k + 1 : Nat), known'⟩ ∧ s' = pushState (k + 1))
      (fun _ _ => False) := by
  have hdecoded : (pushJob mode n limit factor).program.decode (2 * k) = .ok (pushAt mode n k) :=
    decode_pushes hk
  have hnew := depth?_pushState k
  apply ensures_visit
  · intro hover
    have hceiling : ((pushJob mode n limit factor).ceiling (pushState k).frames.size).floor =
        factor * ((2 * n : Nat) + 1) := by
      show factor * (((pushes mode n).length + 0 + 1 : Nat) : Int) * ((max 1 1 : Nat) : Int) = _
      rw [length_pushes]
      push_cast
      simp
    have hsteps : 1 * (((2 * n : Nat) : Int) + 1) ≤ factor * ((2 * n : Nat) + 1) :=
      Int.mul_le_mul_of_nonneg_right hfactor (by omega)
    rw [hceiling] at hover
    change factor * ((2 * n : Nat) + 1) < ((k + 1 : Nat) : Int) at hover
    omega
  · intro r hr
    rw [hdecoded] at hr
    cases hr
  · intro i _ hseen
    rw [hnew] at hseen
    cases hseen
  · intro i seen _ hseen
    rw [hnew] at hseen
    cases hseen
  · intro i hi _
    rw [hdecoded] at hi
    cases hi
    apply ensures_expand
    · intro r hr
      rw [checkDepth_pushes hk hlimit] at hr
      cases hr
    · intro after hafter
      rw [checkDepth_pushes hk hlimit] at hafter
      simp only [Except.ok.injEq, Prod.mk.injEq] at hafter
      obtain ⟨hlow, rfl⟩ := hafter
      rw [← hlow]
      unfold dispatch
      rw [descriptor_pushAt]
      refine Ensures.of_bind (Ensures.of_pure (Ensures.of_pure ⟨_, rfl, ?_⟩))
      simp [pushState, Frames.record, Frames.modify, Frames.modifyIn, Frame.visited, Frame.ranged,
        pushDepths]

theorem traverse_pushes (hlimit : (n : Int) ≤ limit) (hfactor : 1 ≤ factor) :
    traverse (pushJob mode n limit factor) = .ok () (pushState n) := by
  -- one path is taken, and it comes to each push in turn
  have hensures : Ensures (followAll (pushJob mode n limit factor)
      (pushJob mode n limit factor).pathBound) {}
      (fun _ s => ∃ taken, (taken = 0 ∧ s = {} ∨ taken = 1 ∧ s = pushState n) ∧
        (s.worklist = [] ∨ taken = 0 + (pushJob mode n limit factor).pathBound))
      (fun _ _ => False) := by
    apply ensures_followAll
      (I := fun taken f pc depth _ s =>
        taken = 1 ∧ f = .main ∧ ∃ k ≤ n, pc = 2 * k ∧ depth = k ∧ s = pushState k)
      (J := fun taken s => taken = 0 ∧ s = {} ∨ taken = 1 ∧ s = pushState n)
    · rintro taken s p rest (⟨rfl, rfl⟩ | ⟨rfl, rfl⟩) hwork
      · cases hwork
        exact ⟨rfl, rfl, 0, Nat.zero_le n, rfl, rfl, rfl⟩
      · cases hwork
    · rintro taken f pc depth known s hpc ⟨rfl, rfl, k, hk, rfl, rfl, rfl⟩
      change (pushes mode n).length ≤ 2 * k at hpc
      rw [length_pushes] at hpc
      obtain rfl : k = n := by omega
      exact Or.inr ⟨rfl, rfl⟩
    · rintro taken f pc depth known s hpc ⟨rfl, rfl, k, hk, rfl, rfl, rfl⟩
      change 2 * k < (pushes mode n).length at hpc
      rw [length_pushes] at hpc
      refine (visit_pushes known (by omega) hlimit hfactor).mono ?_ (fun _ _ h => h)
      rintro on s' ⟨known', rfl, rfl⟩
      exact ⟨rfl, rfl, k + 1, by omega, rfl, rfl, rfl⟩
    · exact Or.inl ⟨rfl, rfl⟩
  have hbound : 1 < (pushJob mode n limit factor).pathBound := by
    show 1 < ((pushes mode n).length + 1) * ((pushes mode n).length + 0 + 1) + 1
    have hpos : 0 < ((pushes mode n).length + 1) * ((pushes mode n).length + 0 + 1) :=
      Nat.mul_pos (by omega) (by omega)
    omega
  cases hrun : traverse (pushJob mode n limit factor) with
  | error e s => exact (hensures.of_error hrun).elim
  | ok u s =>
      obtain ⟨taken, hs, hdone⟩ := hensures.of_ok hrun
      rcases hs with ⟨rfl, rfl⟩ | ⟨rfl, rfl⟩
      · rcases hdone with hempty | hfuel
        · cases hempty
        · omega
      · rfl

theorem components_pushes (n : Nat) :
    (callGraph (pushState n).frames).components = [[.main]] := by
  show (callGraph ⟨[{ id := .main }]⟩).components = [[.main]]
  cbv

theorem summarise_pushes (hlimit : (n : Int) ≤ limit) :
    summarise (.whole limit) (pushState n).frames = .ok [] := by
  have hneeds : ∃ need, needs (.whole limit) (pushState n).frames = .ok need := by
    have hfuel : (pushState n).frames.size * ((Amount.whole limit).floor.toNat + 1) + 1 =
        limit.toNat + 1 + 1 := by
      show 1 * (limit.toNat + 1) + 1 = limit.toNat + 1 + 1
      omega
    -- the main program has no callers, so nothing is pushed anywhere
    unfold needs
    rw [hfuel]
    exact ⟨_, rfl⟩
  obtain ⟨need, hneed⟩ := hneeds
  have hpeak : (peaks (pushState n).frames)[FrameId.main]? = some ⟨n, none⟩ := by
    rw [peaks, components_pushes]
    simp [addPeaks, pushState, Frames.find?, peakOf]
  simp only [summarise, hneed, hpeak, Option.getD_some, Amount.floor_whole]
  rw [if_neg (by omega)]
  rfl

theorem validate_pushes (hlimit : (n : Int) ≤ limit) (hfactor : 1 ≤ factor) :
    validate (pushJob mode n limit factor) = .ok ⟨.accepted, [], n, 1⟩ := by
  have hlimits : (pushJob mode n limit factor).limit = .whole limit := rfl
  rw [validate, traverse_pushes hlimit hfactor, hlimits]
  simp only [summarise_pushes hlimit]
  rfl

theorem acyclic_pushes (n : Nat) (g : FrameId) :
    ¬ Relation.TransGen (pushState n).frames.Calls g g := by
  intro hcycle
  obtain ⟨f, ⟨F, hF, site, hsite, -⟩, -⟩ := Relation.TransGen.head'_iff.1 hcycle
  have hmem := Frames.mem_of_find? hF
  simp only [pushState, List.mem_singleton] at hmem
  rw [hmem] at hsite
  cases hsite

end Validator

/-! ## Running pushes -/

namespace Machine

variable {host : Host} {mode : OperandMode} {n k : Nat} {budget : Amount}

/-- The word of a push. -/
def pushWord (mode : OperandMode) (n k : Nat) : Word :=
  Word.ofNat ((pushAt mode n k).immediate.getD 0)

/-- The state behind so many pushes. -/
def pushedState (mode : OperandMode) (n : Nat) : Nat → State
  | 0 => {}
  | k + 1 =>
      { pc := 2 * (k + 1)
        stack := (pushedState mode n k).stack.push (pushWord mode n k)
        steps := k + 1 }

theorem pushedState_eq (mode : OperandMode) (n k : Nat) :
    pushedState mode n k = { pc := 2 * k, stack := (pushedState mode n k).stack, steps := k } := by
  cases k <;> rfl

theorem height_pushedState (mode : OperandMode) (n k : Nat) :
    (pushedState mode n k).stack.height = k := by
  induction k with
  | zero => rfl
  | succ k ih => rw [pushedState, Stack.height_push, ih]

theorem run_push (host : Host) (w : Word) (s : State) :
    (push host w).run s =
      if host.stackLimit.ceil ≤ s.stack.height then
        .error (s.fault host (.stackFull host.stackLimit)) s
      else .ok () { s with stack := s.stack.push w } := by
  show (if host.stackLimit.ceil ≤ s.stack.height then
      (throw (s.fault host (.stackFull host.stackLimit)) : Action Unit)
    else set { s with stack := s.stack.push w }).run s = _
  split <;> rfl

theorem step_pushAt (host : Host) (mode : OperandMode) (n k : Nat) (s : State) :
    (step host (pushAt mode n k)).run s =
      if host.stackLimit.ceil ≤ s.stack.height then
        .error (s.fault host (.stackFull host.stackLimit)) s
      else .ok (.goto (2 * (k + 1))) { s with stack := s.stack.push (pushWord mode n k) } := by
  have hopcode : (pushAt mode n k).opcode = .push 0 := by
    rw [Instruction.opcode, descriptor_pushAt]
  simp only [step, control?, descriptor_pushAt, hopcode, compute, next_pushAt]
  rw [EStateM.run_bind, run_push]
  by_cases hfull : host.stackLimit.ceil ≤ s.stack.height
  · rw [if_pos hfull, if_pos hfull]
  · rw [if_neg hfull, if_neg hfull]
    rfl

theorem leaves_pushAt (hprogram : host.program = pushes mode n) (hk : k < n)
    {next : Except Fault Next} {s' : State}
    (hrun : (step host (pushAt mode n k)).run { pushedState mode n k with steps := k + 1 } =
      match next with
      | .ok next => .ok next s'
      | .error f => .error f s') : Leaves host (pushedState mode n k) next s' := by
  have hpc : (pushedState mode n k).pc = 2 * k := by rw [pushedState_eq]
  have hsteps : (pushedState mode n k).steps = k := by rw [pushedState_eq]
  refine ⟨pushAt mode n k, ?_, ?_, ?_⟩
  · rw [hpc, hprogram, length_pushes]
    omega
  · rw [hpc, hprogram]
    exact decode_pushes hk
  · rw [hsteps]
    exact hrun

theorem advances_pushedState (hprogram : host.program = pushes mode n) (hk : k < n)
    (hroom : (k : Int) < host.stackLimit.ceil) :
    Advances host (pushedState mode n k) (pushedState mode n (k + 1)) := by
  have hheight := height_pushedState mode n k
  refine ⟨2 * (k + 1), { pushedState mode n (k + 1) with pc := 2 * k }, ?_, rfl⟩
  apply leaves_pushAt hprogram hk
  rw [step_pushAt, if_neg]
  · rw [pushedState_eq]
    rfl
  · show ¬ host.stackLimit.ceil ≤ (pushedState mode n k).stack.height
    rw [hheight]
    omega

theorem runFrom_pushedState (hprogram : host.program = pushes mode n) (hk : k ≤ n)
    (hroom : (k : Int) ≤ max 0 host.stackLimit.ceil) (fuel : Nat) :
    runFrom host budget (k + fuel) {} = runFrom host budget fuel (pushedState mode n k) := by
  induction k generalizing fuel with
  | zero =>
      rw [Nat.zero_add]
      rfl
  | succ k ih =>
      rw [Nat.succ_add_eq_add_succ, ih (by omega) (by omega)]
      exact runFrom_of_advances (advances_pushedState hprogram (by omega) (by omega))

/-- One push more than there is room for overflows the data stack. -/
theorem run_pushes (hprogram : host.program = pushes mode (n + 1))
    (hroom : (n : Int) = max 0 host.stackLimit.ceil) (hbudget : (n : Int) < budget.ceil) :
    ∃ f, (run host budget).ending = .faulted f ∧ f.cause.kind = .stackOverflow := by
  have hheight := height_pushedState mode (n + 1) n
  obtain ⟨fuel, hfuel⟩ : ∃ fuel, budget.ceil.toNat = n + (fuel + 1) :=
    ⟨budget.ceil.toNat - (n + 1), by omega⟩
  have hleaves : Leaves host (pushedState mode (n + 1) n)
      (.error ((pushedState mode (n + 1) n).fault host (.stackFull host.stackLimit)))
      { pushedState mode (n + 1) n with steps := n + 1 } := by
    apply leaves_pushAt hprogram (Nat.lt_succ_self n)
    rw [step_pushAt, if_pos]
    · rfl
    · show host.stackLimit.ceil ≤ (pushedState mode (n + 1) n).stack.height
      rw [hheight]
      omega
  rw [run, hfuel, runFrom_pushedState hprogram (Nat.le_succ n) (by omega),
    runFrom_of_leaves hleaves]
  exact ⟨_, rfl, rfl⟩

end Machine

/-! ## Agreement -/

open Validator (validate traverse)

/-- A machine that runs a program in a context: an input, a memory limit and a value sent along. -/
def Deployment.hostIn (d : Deployment) (program : Program) (table : JumpTable)
    (calldata : Array UInt8) (memory : Amount) (value : Option Int) : Machine.Host :=
  { d.host program table calldata with memoryLimit := memory, callValue := value }

/-- What a machine deploys under some settings, recursive programs apart, never overflows its data
stack, in whatever context it runs. -/
def Deployment.Agrees (d : Deployment) (store : Store) (env : Environment) : Prop :=
  ∀ program table job report t, store.job env program table none none = .ok job →
    validate job = .ok report → report.verdict = .accepted → traverse job = .ok () t →
    (∀ g, ¬ Relation.TransGen t.frames.Calls g g) →
    ∀ calldata memory value budget e,
      (Machine.run (d.hostIn program table calldata memory value) budget).ending = .faulted e →
        e.cause.kind ≠ .stackOverflow

theorem job_of_settings {store : Store} {env : Environment} {limit factor : Amount}
    (hlimit : store.amount env .stackLimit = .ok limit)
    (hfactor : store.amount env .stepCeilingFactor = .ok factor) (program : Program)
    (table : JumpTable) :
    store.job env program table none none =
      .ok (Validator.Job.make program table limit factor) := by
  simp only [Store.job, Store.amountOr, hlimit, hfactor]
  rfl

theorem Validator.not_stackOverflow_of_accepted {job : Job} {host : Machine.Host} {report : Report}
    {t : State} {budget : Amount} {e : Fault} (hvalid : validate job = .ok report)
    (haccepted : report.verdict = .accepted) (htraverse : traverse job = .ok () t)
    (hacyclic : ∀ g, ¬ Relation.TransGen t.frames.Calls g g) (hjob : job.RunsOn host)
    (hlimit : job.limit.floor ≤ host.stackLimit.ceil)
    (hfault : (Machine.run host budget).ending = .faulted e) : e.cause.kind ≠ .stackOverflow := by
  obtain ⟨t', need, peak, ht', hc, -⟩ := contract_of_validate hvalid haccepted
  obtain rfl : t' = t := by simpa [htraverse] using ht'.symm
  obtain ⟨s, state, hs, hends⟩ := Machine.run_faulted hfault
  rcases hc.ends_faulted hjob hs hends with
    hsteps | ⟨i, f, base, returns, depth, known, after, next, htracks, hpass, hadmitted⟩
  · simp [hsteps]
  · exact hadmitted.not_stackOverflow hc (htracks.tick _) hpass hacyclic hlimit

/-- A machine runs what it deploys without overflowing its data stack exactly if the stack limit of
the validation is not above its own. -/
theorem agrees_iff {store : Store} {env : Environment} {d : Deployment} {limit factor : Int}
    (hlimit : store.amount env .stackLimit = .ok (.whole limit))
    (hfactor : store.amount env .stepCeilingFactor = .ok (.whole factor)) (hsome : 1 ≤ limit)
    (hpositive : 1 ≤ factor) : d.Agrees store env ↔ limit ≤ d.stackLimit.ceil := by
  constructor
  · intro hagrees
    by_contra hbelow
    -- a machine with room for `n` items is given one push more
    obtain ⟨n, hroom⟩ : ∃ n : Nat, (n : Int) = max 0 d.stackLimit.ceil :=
      ⟨(max 0 d.stackLimit.ceil).toNat, by omega⟩
    have hpushes : ((n + 1 : Nat) : Int) ≤ limit := by omega
    have hprogram : (d.hostIn (pushes d.mode (n + 1)) .empty #[] (.whole 0) none).program =
        pushes d.mode (n + 1) := rfl
    have hbudget : (n : Int) < (Amount.whole (n + 1)).ceil := by
      rw [Amount.ceil_whole]
      omega
    obtain ⟨f, hfault, hkind⟩ := Machine.run_pushes hprogram hroom hbudget
    have hjob := job_of_settings hlimit hfactor (pushes d.mode (n + 1)) .empty
    exact hagrees _ _ _ _ _ hjob (Validator.validate_pushes hpushes hpositive) rfl
      (Validator.traverse_pushes hpushes hpositive) (Validator.acyclic_pushes (n + 1)) _ _ _ _ f
      hfault hkind
  · intro hle program table job report t hjob hvalid haccepted htraverse hacyclic calldata memory
      value budget e hfault
    rw [job_of_settings hlimit hfactor] at hjob
    cases hjob
    refine Validator.not_stackOverflow_of_accepted hvalid haccepted htraverse hacyclic ⟨rfl, rfl⟩ ?_
      hfault
    exact hle

/-- With the default settings a machine agrees with its validation, unless it is given a stack limit
of its own that is smaller. -/
theorem agrees_iff_default :
    ∃ d d' : Deployment, ({} : Store).deployment [] {} = .ok d ∧
      ({} : Store).deployment [] { stackLimit := some (.whole 1) } = .ok d' ∧
      d.Agrees {} [] ∧ ¬ d'.Agrees {} [] := by
  have hlimit : ({} : Store).amount [] .stackLimit = .ok (.whole 1024) := rfl
  have hfactor : ({} : Store).amount [] .stepCeilingFactor = .ok (.whole 64) := rfl
  refine ⟨_, _, rfl, rfl, ?_, ?_⟩
  · exact (agrees_iff hlimit hfactor (by decide) (by decide)).2 (Int.le_refl 1024)
  · rw [agrees_iff hlimit hfactor (by decide) (by decide)]
    decide

/-- A machine with room for one item deploys code that pushes two, and the code overflows its data
stack. -/
theorem deployed_overflow :
    ∃ d job report t f,
      ({} : Store).deployment [] { stackLimit := some (.whole 1) } = .ok d ∧
      ({} : Store).job [] (pushes .immediate 2) .empty none none = .ok job ∧
      validate job = .ok report ∧ report.verdict = .accepted ∧ traverse job = .ok () t ∧
      (∀ g, ¬ Relation.TransGen t.frames.Calls g g) ∧
      (Machine.run (d.host (pushes .immediate 2) .empty #[]) d.maxSteps).ending = .faulted f ∧
      f.cause.kind = .stackOverflow := by
  have hpushes : ((2 : Nat) : Int) ≤ 1024 := by decide
  have hfactor : (1 : Int) ≤ 64 := by decide
  have hlimits : ({} : Store).amount [] .stackLimit = .ok (.whole 1024) := rfl
  have hfactors : ({} : Store).amount [] .stepCeilingFactor = .ok (.whole 64) := rfl
  obtain ⟨d, hd, hstack, hsteps⟩ : ∃ d,
      ({} : Store).deployment [] { stackLimit := some (.whole 1) } = .ok d ∧
      d.stackLimit = .whole 1 ∧ d.maxSteps = .whole 1000000 := ⟨_, rfl, rfl, rfl⟩
  have hroom : ((1 : Nat) : Int) = max 0 d.stackLimit.ceil := by
    rw [hstack]
    rfl
  have hbudget : ((1 : Nat) : Int) < d.maxSteps.ceil := by
    rw [hsteps]
    decide
  have hprogram : (d.host (pushes .immediate 2) .empty #[]).program = pushes .immediate 2 := rfl
  obtain ⟨f, hfault, hkind⟩ := Machine.run_pushes hprogram hroom hbudget
  exact ⟨d, _, _, _, f, hd, job_of_settings hlimits hfactors _ _,
    Validator.validate_pushes hpushes hfactor, rfl, Validator.traverse_pushes hpushes hfactor,
    Validator.acyclic_pushes 2, hfault, hkind⟩

end FlowCheck
