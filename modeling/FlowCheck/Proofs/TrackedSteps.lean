import FlowCheck.Proofs.Tracking
import FlowCheck.Proofs.Walk

/-!
# One instruction, run and tracked

The machine executes an instruction on words, the validation dispatches it on what it knows about
them.  If the knowledge describes the stack before, it describes the stack after, for every
instruction that goes on behind itself, and the height changes as the row of the instruction says.
-/

namespace FlowCheck.Validator

open Machine (Computes Effect Host Next)

variable {host : Host} {i : Instruction} {pc : Nat} {s s' : Machine.State} {next : Next} {job : Job}
  {known : Constants} {items items' : List Word}

/-! ## The machine -/

/-- An instruction that goes on behind itself stands in the code, as the implicit stop does not. -/
theorem inside_of_decode {p : Program} (hdecoded : p.decode pc = .ok i)
    (hkind : i.descriptor.kind = .plain ∨ i.descriptor.kind = .push) : pc < p.length := by
  by_contra houtside
  have hstop := Program.decode_of_length_le (p := p) (Nat.not_lt.1 houtside)
  obtain rfl : i = Program.endOfCode pc := by simpa [hdecoded] using hstop
  rcases hkind with hkind | hkind <;> cases hkind

/-- An instruction that does not move control computes and goes on behind itself. -/
theorem computes_of_step (hpc : pc < host.program.length)
    (hdecoded : host.program.decode pc = .ok i)
    (hkind : i.descriptor.kind = .plain ∨ i.descriptor.kind = .push)
    (hstep : (Machine.step host i).run s = .ok next s') :
    next = .goto i.next ∧ Computes i s.stack.items s'.stack.items := by
  have heffect : Effect host i s next s' := (Machine.ensures_step hpc hdecoded).of_ok hstep
  cases heffect with
  | computed _ hitems _ => exact ⟨rfl, hitems⟩
  | began hother | fell hother | called hother | returned hother | halted hother =>
      rcases hkind with h | h <;> rw [h] at hother <;> cases hother
  | jumped hother =>
      rcases hkind with h | h <;> rw [h] at hother <;> rcases hother with hother | hother <;>
        cases hother

theorem length_of_computes {mode : OperandMode} (h : Computes i items items')
    (hrow : i.descriptor = mode.describe i.opcode) :
    (items'.length : Int) = items.length + i.descriptor.delta := by
  obtain ⟨hinputs, new, hnew, rfl⟩ := h.items hrow
  rw [List.length_append, List.length_drop, hnew, Descriptor.delta]
  omega

/-! ## The validation -/

theorem Job.describes_of_cut? {known' : Constants} (h : job.cut? known = .ok known')
    (hdescribes : known.Describes items) : known'.Describes items := by
  unfold Job.cut? at h
  split at h
  · cases h
    exact hdescribes.take _
  · cases h

/-- Behind an instruction that computes, what the validation goes on with describes what the machine
goes on with. -/
theorem describes_of_successors {p : Program} {onward : Successors} (hpc : pc < p.length)
    (hdecoded : p.decode pc = .ok i)
    (hkind : i.descriptor.kind = .plain ∨ i.descriptor.kind = .push)
    (hnext : job.successors i known = .ok onward) (hdescribes : known.Describes items)
    (hcomputes : Computes i items items') :
    ∃ known', onward.fall = some known' ∧ known'.Describes items' := by
  have hrow := Program.decode_descriptor hpc hdecoded
  have hcases := Job.successors_cases hnext
  rcases hkind with hkind | hkind
  · simp only [hkind] at hcases
    rcases hcases with ⟨-, rfl⟩ | ⟨-, known', hcut, rfl⟩
    · exact ⟨[], rfl, Constants.describes_nil _⟩
    · exact ⟨known', rfl,
        Job.describes_of_cut? hcut (hdescribes.afterPlain hrow hkind hcomputes)⟩
  · simp only [hkind] at hcases
    obtain ⟨known', hcut, rfl⟩ := hcases
    exact ⟨known', rfl,
      Job.describes_of_cut? hcut (hdescribes.afterPush hpc hdecoded hkind hcomputes)⟩

/-- What is known behind an instruction that computes, of as many items as the limit allows. -/
def tracked (i : Instruction) (known : Constants) (capacity : Nat) : Constants :=
  match i.descriptor.kind with
  | .push => (known.afterPush i.immediate).take capacity
  -- control may arrive at a marker from elsewhere, so nothing stays known
  | _ => if i.opcode == .jumpdest then [] else (known.afterPlain i.descriptor).take capacity

/-- With a limit that counts items, an instruction that computes is always passed. -/
theorem successors_of_computing {capacity : Int} (known : Constants)
    (hkind : i.descriptor.kind = .plain ∨ i.descriptor.kind = .push)
    (hlimit : job.limit.count? = some capacity) (hcapacity : 1 ≤ capacity) :
    job.successors i known = .ok { fall := some (tracked i known capacity.toNat) } := by
  obtain ⟨n, rfl⟩ : ∃ n : Nat, capacity = n + 1 := ⟨(capacity - 1).toNat, by omega⟩
  have hcut : ∀ k, job.cut? k = .ok (k.take (n + 1)) := by
    intro k
    rw [Job.cut?, hlimit]
    rfl
  have hcount : ((n : Int) + 1).toNat = n + 1 := by omega
  rw [hcount]
  rcases hkind with hkind | hkind
  · by_cases hmarker : i.opcode = .jumpdest
    · simp [Job.successors, tracked, hkind, hmarker]
    · simp [Job.successors, tracked, hkind, hmarker, hcut, Except.map]
  · simp [Job.successors, tracked, hkind, hcut, Except.map]

theorem dispatch_of_fall {known' : Constants}
    (hnext : job.successors i known = .ok { fall := some known' }) (frame : FrameId) (depth : Int) :
    dispatch job frame i depth known = pure (some ⟨i.descriptor.width, depth, known'⟩) := by
  rw [dispatch_eq, hnext]
  rfl

/-! ## Both together -/

/-- Tracking is sound for every instruction that moves no control.  Whenever constants describe the
stack and the machine executes the instruction without a fault, control goes on behind it, the
height changes by the difference of results and operands, and the dispatch of the instruction, under
any limit of at least one item, goes on with the tracked constants, which describe the new stack. -/
theorem tracking_sound {capacity : Int} (hdecoded : host.program.decode pc = .ok i)
    (hkind : i.descriptor.kind = .plain ∨ i.descriptor.kind = .push)
    (hknown : known.Describes s.stack.items) (hlimit : job.limit.count? = some capacity)
    (hcapacity : 1 ≤ capacity) (hstep : (Machine.step host i).run s = .ok next s')
    (frame : FrameId) (depth : Int) (t : State) :
    next = .goto i.next ∧ (s'.stack.height : Int) = s.stack.height + i.descriptor.delta ∧
    (dispatch job frame i depth known).run t =
      .ok (some ⟨i.descriptor.width, depth, tracked i known capacity.toNat⟩) t ∧
    (tracked i known capacity.toNat).Describes s'.stack.items := by
  have hpc := inside_of_decode hdecoded hkind
  obtain ⟨hgoto, hcomputes⟩ := computes_of_step hpc hdecoded hkind hstep
  have hnext := successors_of_computing known hkind hlimit hcapacity
  obtain ⟨known', hfall, hdescribes⟩ :=
    describes_of_successors hpc hdecoded hkind hnext hknown hcomputes
  obtain rfl : tracked i known capacity.toNat = known' := by simpa using hfall
  refine ⟨hgoto, ?_, ?_, hdescribes⟩
  · rw [s.stack.height_eq, s'.stack.height_eq]
    exact length_of_computes hcomputes (Program.decode_descriptor hpc hdecoded)
  · rw [dispatch_of_fall hnext]
    rfl

namespace Sample

/-- A machine whose program exchanges the top word with the one below another. -/
def exchanging : Host where
  program := Program.ofCode .immediate #[0x91]

/-- The exchange. -/
def exchange : Instruction :=
  exchanging.program.instructionOf 0 (.swap 1)

/-- Three words on the stack, the least on top. -/
def threeWords : Machine.State where
  stack := ((Stack.empty.push (.ofNat 3)).push (.ofNat 2)).push (.ofNat 1)

/-- A validation of the exchange. -/
def exchangingJob : Job :=
  ⟨exchanging.program, JumpTable.empty, .whole 3, .whole 10⟩

end Sample

/-- An exchange that reaches below what is known: the known word moves down, and what comes up is
unknown. -/
theorem tracking_sound_exchange :
    ∃ s', (Machine.step Sample.exchanging Sample.exchange).run Sample.threeWords =
        .ok (.goto 1) s' ∧ (s'.stack.height : Int) = 3 ∧
      (dispatch Sample.exchangingJob .main Sample.exchange 3 [some 1]).run {} =
        .ok (some ⟨0, 3, [none, none, some 1]⟩) {} ∧
      Constants.Describes [none, none, some 1] s'.stack.items := by
  have hdecoded : Sample.exchanging.program.decode 0 = .ok Sample.exchange := rfl
  have hknown : Constants.Describes [some 1] Sample.threeWords.stack.items := by
    refine (Constants.describes_nil _).cons (fun v hv => ?_)
    cases hv
    rfl
  have hlimit : Sample.exchangingJob.limit.count? = some 3 := rfl
  have hstep : (Machine.step Sample.exchanging Sample.exchange).run Sample.threeWords =
      .ok (.goto 1) { Sample.threeWords with stack := Sample.threeWords.stack.swap 2 } := rfl
  obtain ⟨-, hheight, hrun, hdescribes⟩ :=
    tracking_sound hdecoded (Or.inl rfl) hknown hlimit (by decide) hstep .main 3 {}
  exact ⟨_, hstep, hheight, hrun, hdescribes⟩

end FlowCheck.Validator
