import FlowCheck.Proofs.Simulation

/-!
# Soundness of the validation

What acceptance says about every run of a program, whatever its input and its limits.  An accepted
program never meets an undecodable instruction, a missing operand or a return without a call
(`faults_of_accepted`).  Without recursion it stays within the stack limit of the validation and
within as many pending calls as it has subroutines (`bounded_of_accepted`).
-/

namespace FlowCheck.Validator

open Machine (Host Effect Fails Reachable Leaves Ends Targets)

variable {job : Job} {host : Host} {calls : FrameId → FrameId → Prop} {need peak : FrameId → Int}
  {root f : FrameId} {bottom base depth : Int} {outer returns : List Nat} {keep : List Word}
  {known : Constants} {pc : Nat} {i : Instruction} {s s' : Machine.State}

/-! ## Faults -/

/-- A run of an accepted program ends with a fault only where the machine or the table leaves room
for one. -/
theorem Contract.ends_faulted {budget : Amount} {e : Fault} {state : Machine.State}
    (hc : Contract job calls need peak) (hjob : job.RunsOn host) (hs : Reachable host s)
    (hends : Ends host budget s ⟨.faulted e, state⟩) :
    e.cause.kind = .outOfSteps ∨
      ∃ i f base returns depth known after next,
        Tracks job .main 0 [] [] f base returns depth known s ∧
        job.Passes f s.pc depth known i after next ∧
        Admitted host i { s with steps := s.steps + 1 } known e := by
  obtain ⟨f, base, returns, depth, known, htracks⟩ := follows_of_reachable hc hjob hs
  cases hends with
  | undecodable hdecode =>
      -- inside the code every point decodes, and behind it everything does
      rw [hjob.program] at hdecode
      by_cases hpc : s.pc < job.program.length
      · obtain ⟨i, after, next, hpass⟩ := hc.consistent.passes htracks.point hpc
        rw [hpass.decoded] at hdecode
        cases hdecode
      · rw [Program.decode_of_length_le (Nat.not_lt.1 hpc)] at hdecode
        cases hdecode
  | outOfSteps _ _ => exact Or.inl rfl
  | faulted hleaves =>
      obtain ⟨i, hpc, hdecoded, hfails⟩ := hleaves.fails
      obtain ⟨after, next, hpass⟩ := htracks.passes hc hjob hpc hdecoded
      have hkeep : (([] : List Word).length : Int) ≤ 0 - need .main := by simp [hc.main]
      exact Or.inr ⟨i, f, base, returns, depth, known, after, next, htracks, hpass,
        (htracks.tick (s.steps + 1)).admitted hc hjob hkeep hpass hfails.cause⟩

/-- A site that takes its target from the stack holds no landing marker. -/
theorem hasMarker_of_takesTarget {p : Program} (hdecoded : p.decode pc = .ok i)
    (hsite : Machine.TakesTarget i) (marker : Marker) : p.hasMarker marker pc = false := by
  by_contra hmark
  have hi := (Program.decode_of_hasMarker (by simpa using hmark)).2
  rw [hdecoded] at hi
  cases hi
  obtain ⟨-, hkind⟩ := hsite
  cases marker <;>
    simp [Program.instructionOf, Program.markerOpcode, OperandMode.describe] at hkind

/-- The faults of an accepted program, in every run.  No instruction is undecodable, no operand is
missing and no return lacks its call.  A transfer goes wrong only at a site that the table lists and
that takes a target from the stack which neither the table declares nor the validation could have
read from the code. -/
theorem faults_of_accepted {report : Report} {budget : Amount} {e : Fault}
    (hvalid : validate job = .ok report) (haccepted : report.verdict = .accepted)
    (hjob : job.RunsOn host) (hfault : (Machine.run host budget).ending = .faulted e) :
    e.cause.kind ≠ .invalidInstruction ∧ e.cause.kind ≠ .stackUnderflow ∧
      e.cause.kind ≠ .returnStackUnderflow ∧
      (e.cause.kind = .invalidJumpDestination →
        ∃ s i w, Reachable host s ∧ host.program.decode s.pc = .ok i ∧ i.immediate = none ∧
          s.stack.items.head? = some w ∧ e = Machine.faultAt i (.undeclaredEdge s.pc w.toNat) ∧
          host.table.hasSource s.pc = true ∧ w.toNat ∉ host.table.targets s.pc ∧
          ∀ f depth known, Reach job (.point f s.pc depth known) → known.top? = none) := by
  obtain ⟨t, need, peak, -, hc, -⟩ := contract_of_validate hvalid haccepted
  obtain ⟨s, state, hs, hends⟩ := Machine.run_faulted hfault
  rcases hc.ends_faulted hjob hs hends with
    hsteps | ⟨i, f, base, returns, depth, known, after, next, htracks, hpass, hadmitted⟩
  · simp [hsteps]
  · have hpc := Program.decode_pc hpass.decoded
    cases hadmitted with
    | full hkind _ => simp [hkind]
    | memory hkind => simp [hkind]
    | unsupported hkind => simp [hkind]
    | returnsFull _ _ _ => simp [Machine.faultAt, FaultCause.kind]
    | undeclared hsite hw hsource hedge hunknown =>
        refine ⟨by simp [Machine.faultAt, FaultCause.kind],
          by simp [Machine.faultAt, FaultCause.kind],
          by simp [Machine.faultAt, FaultCause.kind], fun _ => ?_⟩
        rw [hpc] at hsource hedge
        refine ⟨s, i, _, hs, hjob.program ▸ hpass.decoded, hsite.1, hw, by rw [hpc], hsource,
          ?_, ?_⟩
        · rw [← JumpTable.hasEdge_iff_mem_targets, hedge]
          exact Bool.false_ne_true
        · intro f' depth' known' hpoint'
          -- a site is no landing marker, so whoever reaches it knows the same constants
          rw [hpoint'.known_unique htracks.point
            (hasMarker_of_takesTarget hpass.decoded hsite)]
          exact hunknown

namespace Sample

set_option maxRecDepth 10000 in
theorem validate_recursive :
    validate recursive = .ok ⟨.accepted, [⟨10, 0, some 0, 2⟩], 14, 2⟩ := by
  rw [validate, traverse_recursive]
  cbv

/-- A machine that runs the recursive program without input. -/
def recursiveHost : Host where
  program := recursive.program
  table := recursive.table

/-- Without input the program wants to jump to its start, which the table does not declare. -/
def recursiveFault : Fault :=
  Machine.faultAt (recursive.program.instructionOf 3 .jump) (.undeclaredEdge 3 0)

/-- The state at the jump. -/
def atJump : Machine.State where
  pc := 3
  stack := Stack.empty.push (Word.ofNat 0)
  steps := 2

theorem atJump_fails :
    Leaves recursiveHost atJump (.error recursiveFault)
      { atJump with stack := Stack.empty, steps := 3 } := by
  have hforbidden :
      (recursiveHost.table.hasSource 3 && !recursiveHost.table.hasEdge 3 0) = true := by
    cbv
  have hedge : Machine.checkEdge recursiveHost (recursive.program.instructionOf 3 .jump)
      (Word.ofNat 0).toNat = throw recursiveFault := by
    unfold Machine.checkEdge
    exact if_pos hforbidden
  have hpop : (Machine.pop recursiveHost).run { atJump with steps := 3 } =
      .ok (Word.ofNat 0) { atJump with stack := Stack.empty, steps := 3 } := rfl
  have hcontrol : Machine.control? recursiveHost (recursive.program.instructionOf 3 .jump) =
      some (Machine.jump recursiveHost (recursive.program.instructionOf 3 .jump)) := rfl
  refine ⟨recursive.program.instructionOf 3 .jump, by decide, rfl, ?_⟩
  change (Machine.step recursiveHost _).run { atJump with steps := 3 } = _
  simp [Machine.step, hcontrol, Machine.jump, Machine.checkJump, hedge, hpop]

theorem run_recursive :
    (Machine.run recursiveHost (.whole 8)).ending = .faulted recursiveFault := by
  have hpush : Machine.Advances recursiveHost {} { atJump with pc := 2, steps := 1 } :=
    ⟨2, { atJump with pc := 0, steps := 1 }, ⟨_, by decide, rfl, rfl⟩, rfl⟩
  have hload : Machine.Advances recursiveHost { atJump with pc := 2, steps := 1 } atJump :=
    ⟨3, { atJump with pc := 2 }, ⟨_, by decide, rfl, rfl⟩, rfl⟩
  change (Machine.runFrom recursiveHost (.whole 8) 8 {}).ending = _
  rw [Machine.runFrom_of_advances hpush, Machine.runFrom_of_advances hload,
    Machine.runFrom_of_leaves atJump_fails]
  rfl

end Sample

theorem faults_of_accepted_recursive :
    (Machine.run Sample.recursiveHost (.whole 8)).ending = .faulted Sample.recursiveFault ∧
      Sample.recursiveFault.cause.kind = .invalidJumpDestination ∧
      ∃ s i w, Reachable Sample.recursiveHost s ∧
        Sample.recursiveHost.program.decode s.pc = .ok i ∧ i.immediate = none ∧
        s.stack.items.head? = some w ∧
        Sample.recursiveFault = Machine.faultAt i (.undeclaredEdge s.pc w.toNat) ∧
        Sample.recursiveHost.table.hasSource s.pc = true ∧
        w.toNat ∉ Sample.recursiveHost.table.targets s.pc ∧
        ∀ f depth known, Reach Sample.recursive (.point f s.pc depth known) → known.top? = none :=
  ⟨Sample.run_recursive, rfl,
    (faults_of_accepted Sample.validate_recursive rfl ⟨rfl, rfl⟩ Sample.run_recursive).2.2.2 rfl⟩

/-! ## Heights -/

namespace Tracks

/-- Without recursion, a point is not above the peak of the root. -/
theorem height_le (h : Tracks job root bottom outer keep f base returns depth known s)
    (hc : Contract job calls need peak)
    (hacyclic : ∀ g, Relation.ReflTransGen calls root g → ¬ Relation.TransGen calls g g) :
    (s.stack.items.length : Int) ≤ bottom + peak root := by
  have hdepth := hc.depth_le (hacyclic f (h.chain.reaches hc)) h.point
  have hpeak := h.chain.peak_le hc hacyclic
  have hheight := h.height
  omega

/-- Without recursion, no instruction rises above the peak of the root. -/
theorem after_le {after : Int} {next : Successors}
    (h : Tracks job root bottom outer keep f base returns depth known s)
    (hc : Contract job calls need peak)
    (hacyclic : ∀ g, Relation.ReflTransGen calls root g → ¬ Relation.TransGen calls g g)
    (hpass : job.Passes f s.pc depth known i after next) : base + after ≤ bottom + peak root := by
  have hafter := hc.rises h.point hpass
  have hpeak := h.chain.peak_le hc hacyclic
  omega

/-- What the instruction at a point leaves, whether or not it succeeds. -/
theorem leaves {next : Except Fault Machine.Next}
    (h : Tracks job root bottom outer keep f base returns depth known s)
    (hc : Contract job calls need peak) (hjob : job.RunsOn host)
    (hkeep : (keep.length : Int) ≤ bottom - need root) (hleaves : Leaves host s next s') :
    keep <:+ s'.stack.items ∧
      ((∀ g, Relation.ReflTransGen calls root g → ¬ Relation.TransGen calls g g) →
        (s'.stack.items.length : Int) ≤ bottom + peak root) := by
  have htick := h.tick (s.steps + 1)
  cases next with
  | ok next =>
      obtain ⟨i, hpc, hdecoded, heffect⟩ := hleaves.effect
      obtain ⟨after, next, hpass⟩ := h.passes hc hjob hpc hdecoded
      refine ⟨htick.keeps_after hc hkeep hpass heffect, fun hacyclic => ?_⟩
      rw [htick.height_after hpass heffect]
      exact h.after_le hc hacyclic hpass
  | error e =>
      obtain ⟨i, hpc, hdecoded, hfails⟩ := hleaves.fails
      obtain ⟨after, next, hpass⟩ := h.passes hc hjob hpc hdecoded
      -- a failing instruction has taken some of its operands and left nothing
      obtain ⟨n, hn, hitems⟩ := hfails.items
      rw [hitems]
      refine ⟨htick.keeps_drop hc hkeep hpass hn [], fun hacyclic => ?_⟩
      have hheight := htick.height_le hc hacyclic
      rw [List.length_drop]
      omega

end Tracks

/-- The pending calls of a chain without recursion come from different frames. -/
theorem Chain.length_lt {fs : Frames} (h : Chain job root bottom f base returns)
    (hc : Contract job fs.Calls need peak) (hacyclic : ∀ g, ¬ Relation.TransGen fs.Calls g g)
    (hf : fs.find? f ≠ none) : returns.length < fs.size := by
  obtain ⟨callers, hlength, hnodup, hcallers⟩ := h.frames hc (fun g _ => hacyclic g)
  have hfresh : (f :: callers).Nodup :=
    List.nodup_cons.2 ⟨fun hmem => hacyclic f (hcallers f hmem), hnodup⟩
  -- the frame and its callers are open, so there are no more of them than open frames
  have hopen : f :: callers ⊆ fs.ids := by
    intro g hg
    rcases List.mem_cons.1 hg with rfl | hg
    · exact Classical.not_not.1 (mt Frames.find?_eq_none_iff.2 hf)
    · obtain ⟨g', ⟨F, hF, -⟩, -⟩ := Relation.TransGen.head'_iff.1 (hcallers g hg)
      exact Classical.not_not.1 (mt Frames.find?_eq_none_iff.2 (by simp [hF]))
  have hle := (hfresh.subperm hopen).length_le
  rw [Frames.size_eq_length_ids, ← hlength]
  exact hle

/-- Without recursion, a run of an accepted program has never more calls pending than it has
subroutines, and one less where it makes another call. -/
theorem Tracks.pending_le {t : State} {report : Report}
    (h : Tracks job .main 0 [] [] f base returns depth known s)
    (htraversed : Traversed job t.frames) (hc : Contract job t.frames.Calls need peak)
    (hsummaries : report.subroutines = t.frames.toList.filterMap (Frame.summary? need peak))
    (hacyclic : ∀ g, ¬ Relation.TransGen t.frames.Calls g g) :
    s.calls.stack.items.length ≤ report.subroutines.length ∧
      ∀ after target, Reach job (.call f s.pc after target) →
        s.calls.stack.items.length < report.subroutines.length := by
  have hsize : t.frames.size = report.subroutines.length + 1 := by
    rw [hsummaries]
    exact length_summaries need peak htraversed.justified.nodup htraversed.justified.main
  have hcalls : s.calls.stack.items.length = returns.length := by
    rw [h.calls, List.append_nil]
  refine ⟨?_, fun after target hcall => ?_⟩
  · have hlt := h.chain.length_lt hc hacyclic (htraversed.opened_of_point h.point)
    omega
  · -- the chain that this call extends is one longer and still within the frames
    obtain ⟨-, -, i, hdecoded, -⟩ := hcall.of_call
    have hlt := (h.chain.call hcall hdecoded).length_lt hc hacyclic
      (htraversed.opened_of_point hcall.enter)
    rw [List.length_cons] at hlt
    omega

/-- Without recursion, the data stack has room for every result. -/
theorem Admitted.not_stackOverflow {e : Fault} {after : Int} {next : Successors}
    (h : Admitted host i s known e) (hc : Contract job calls need peak)
    (htracks : Tracks job .main 0 [] [] f base returns depth known s)
    (hpass : job.Passes f s.pc depth known i after next)
    (hacyclic : ∀ g, ¬ Relation.TransGen calls g g)
    (hlimit : job.limit.floor ≤ host.stackLimit.ceil) : e.cause.kind ≠ .stackOverflow := by
  cases h with
  | full hkind hfull =>
      have hheight := htracks.height
      have hafter := (checkDepth_eq_ok_iff.1 hpass.depths).2.1
      have hle := htracks.after_le hc (fun g _ => hacyclic g) hpass
      have htop := hc.top
      omega
  | memory hkind => simp [hkind]
  | unsupported hkind => simp [hkind]
  | returnsFull _ _ _ => simp [Machine.faultAt, FaultCause.kind]
  | undeclared _ _ _ _ _ => simp [Machine.faultAt, FaultCause.kind]

/-- Where fewer calls are pending than fit, the return stack has room for another. -/
theorem Admitted.not_returnStackOverflow {e : Fault} {bound : Nat}
    (h : Admitted host i s known e) (hroom : ∀ target, Targets host i s target →
      i.descriptor.kind = .jumpsub → s.calls.stack.items.length < bound)
    (hlimit : (bound : Int) ≤ host.returnLimit.ceil) : e.cause.kind ≠ .returnStackOverflow := by
  cases h with
  | full hkind _ => simp [hkind]
  | memory hkind => simp [hkind]
  | unsupported hkind => simp [hkind]
  | returnsFull hkind htarget hfull =>
      have hlt := hroom _ htarget hkind
      rw [s.calls.stack.height_eq] at hfull
      omega
  | undeclared _ _ _ _ _ => simp [Machine.faultAt, FaultCause.kind]

/-- The stacks of an accepted program without recursion.  In every run with at least the stack limit
of the validation, the data stack stays within that limit and there are never more calls pending
than there are subroutines.  So neither stack overflows, the return stack provided that it has room
for as many calls. -/
theorem bounded_of_accepted {t : State} {report : Report} (hvalid : validate job = .ok report)
    (haccepted : report.verdict = .accepted) (htraverse : traverse job = .ok () t)
    (hacyclic : ∀ g, ¬ Relation.TransGen t.frames.Calls g g) (hjob : job.RunsOn host)
    (hlimit : job.limit.floor ≤ host.stackLimit.ceil) :
    (∀ s, Reachable host s → (s.stack.height : Int) ≤ job.limit.floor ∧
      s.calls.stack.height ≤ report.subroutines.length) ∧
    ∀ budget, ((Machine.run host budget).state.stack.height : Int) ≤ job.limit.floor ∧
      (Machine.run host budget).state.calls.stack.height ≤ report.subroutines.length ∧
      ∀ e, (Machine.run host budget).ending = .faulted e → e.cause.kind ≠ .stackOverflow ∧
        ((report.subroutines.length : Int) ≤ host.returnLimit.ceil →
          e.cause.kind ≠ .returnStackOverflow) := by
  obtain ⟨t', need, peak, ht', hc, hsummaries⟩ := contract_of_validate hvalid haccepted
  obtain rfl : t' = t := by simpa [htraverse] using ht'.symm
  have htraversed := traversed_of_traverse htraverse
  have hkeep : (([] : List Word).length : Int) ≤ 0 - need .main := by simp [hc.main]
  have htop := hc.top
  have hstates : ∀ s, Reachable host s → (s.stack.height : Int) ≤ job.limit.floor ∧
      s.calls.stack.height ≤ report.subroutines.length := by
    intro s hs
    obtain ⟨f, base, returns, depth, known, htracks⟩ := follows_of_reachable hc hjob hs
    have hheight := htracks.height_le hc (fun g _ => hacyclic g)
    have hpending := (htracks.pending_le htraversed hc hsummaries hacyclic).1
    rw [s.stack.height_eq, s.calls.stack.height_eq]
    exact ⟨by omega, hpending⟩
  refine ⟨hstates, fun budget => ?_⟩
  obtain ⟨s, hs, hends⟩ := Machine.run_ends host budget
  obtain ⟨f, base, returns, depth, known, htracks⟩ := follows_of_reachable hc hjob hs
  obtain ⟨hheight, hpending⟩ := hstates s hs
  refine ⟨?_, ?_, fun e hfault => ?_⟩
  · rcases hends.state with hstate | ⟨⟨next, hleaves⟩, -⟩
    · rw [hstate]
      exact hheight
    · -- the last instruction halted or failed, and what it left is bounded like a point
      have hle := (htracks.leaves hc hjob hkeep hleaves).2 (fun g _ => hacyclic g)
      rw [Stack.height_eq]
      omega
  · rcases hends.state with hstate | ⟨-, hcalls⟩
    · rw [hstate]
      exact hpending
    · rw [hcalls]
      exact hpending
  · obtain ⟨s, state, hs, hends⟩ := Machine.run_faulted hfault
    rcases hc.ends_faulted hjob hs hends with
      hsteps | ⟨i, f, base, returns, depth, known, after, next, htracks, hpass, hadmitted⟩
    · simp [hsteps]
    · have htick := htracks.tick (s.steps + 1)
      refine ⟨hadmitted.not_stackOverflow hc htick hpass hacyclic hlimit,
        hadmitted.not_returnStackOverflow (fun target htarget hkind => ?_)⟩
      exact (htick.pending_le htraversed hc hsummaries hacyclic).2 after target
        (htick.called hjob hpass hkind htarget)

namespace Sample

/-- A program that negates the second of two constants in a subroutine. -/
def negating : Job :=
  Job.make
    (Program.ofCode .immediate
      #[0x60, 0x07, 0x60, 0x05, 0x5d, 0x00, 0x00, 0x09, 0x00, 0x5c, 0x15, 0x5e])
    JumpTable.empty (.whole 2) (.whole 2)

/-- The end of its traversal. -/
def negatingEnd : State where
  frames := ⟨[
    { id := .main
      depths := (((({} : Std.HashMap Nat Int).insert 0 0).insert 2 1).insert 4 2).insert 8 2
      high := 2
      calls := [⟨.main, 9, 4, 8, 2⟩] },
    { id := .entry 9
      depths := ((({} : Std.HashMap Nat Int).insert 9 0).insert 10 0).insert 11 0
      low := -1
      net := some 0
      callers := [⟨.main, 9, 4, 8, 2⟩] }]⟩
  worklist := []
  steps := 7

set_option maxRecDepth 10000 in
theorem traverse_negating : traverse negating = .ok () negatingEnd := by
  cbv

set_option maxRecDepth 10000 in
theorem validate_negating :
    validate negating = .ok ⟨.accepted, [⟨9, 1, some 0, 0⟩], 7, 2⟩ := by
  rw [validate, traverse_negating]
  cbv

/-- Only the main program calls, and it calls the subroutine. -/
theorem calls_negating {f g : FrameId} (h : negatingEnd.frames.Calls f g) :
    f = .main ∧ g = .entry 9 := by
  obtain ⟨F, hF, site, hsite, rfl⟩ := h
  have hid := Frames.find?_id hF
  have hmem := Frames.mem_of_find? hF
  simp only [negatingEnd, List.mem_cons, List.not_mem_nil, or_false] at hmem
  rcases hmem with rfl | rfl
  · simp only [List.mem_singleton] at hsite
    subst hsite
    exact ⟨hid.symm, rfl⟩
  · cases hsite

theorem acyclic_negating (g : FrameId) : ¬ Relation.TransGen negatingEnd.frames.Calls g g := by
  intro hcycle
  obtain ⟨f, hfirst, -⟩ := Relation.TransGen.head'_iff.1 hcycle
  obtain ⟨f', -, hlast⟩ := Relation.TransGen.tail'_iff.1 hcycle
  have := (calls_negating hfirst).1.symm.trans (calls_negating hlast).2
  cases this

/-- A machine that runs it, with no room to spare. -/
def negatingHost : Host where
  program := negating.program
  stackLimit := .whole 2
  returnLimit := .whole 1

end Sample

theorem bounded_of_accepted_negating :
    (∀ s, Reachable Sample.negatingHost s →
      (s.stack.height : Int) ≤ 2 ∧ s.calls.stack.height ≤ 1) ∧
    ∀ budget e, (Machine.run Sample.negatingHost budget).ending = .faulted e →
      e.cause.kind ≠ .stackOverflow ∧ e.cause.kind ≠ .returnStackOverflow := by
  have hjob : Sample.negating.RunsOn Sample.negatingHost := ⟨rfl, rfl⟩
  obtain ⟨hstates, hends⟩ := bounded_of_accepted Sample.validate_negating rfl
    Sample.traverse_negating Sample.acyclic_negating hjob (by decide)
  refine ⟨hstates, fun budget e hfault => ?_⟩
  obtain ⟨hstack, hreturns⟩ := (hends budget).2.2 e hfault
  exact ⟨hstack, hreturns (by decide)⟩

end FlowCheck.Validator
