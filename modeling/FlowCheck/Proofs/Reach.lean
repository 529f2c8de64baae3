import FlowCheck.Proofs.Boundaries
import FlowCheck.Validator.Traversal
import Mathlib

/-!
# What a validation has to look at

`Reach` says without any order of exploration which counters a frame reaches, with which depth and
which known constants, which calls it makes and with which depth it returns.  A program is
`Consistent` if everything reached passes its local checks and nothing is reached in two ways that
disagree.

The known constants are part of a fact although a traversal remembers depths only.  That loses
nothing: `Reach.successors_unique` shows that two facts about one counter have the same successors.
Away from landing markers the constants are those of the code in front of the counter, and at a
landing marker they are forgotten.
-/

namespace FlowCheck.Validator

/-! ## Successors of an instruction -/

/-- Where control may go from an instruction. -/
structure Successors where
  /-- The constants known behind the instruction, if control may go on there. -/
  fall : Option Constants := none
  /-- The counters it may jump to. -/
  jumps : List Nat := []
  /-- The entries it may call. -/
  calls : List Nat := []
  /-- Whether it returns. -/
  returns : Bool := false

/-- The constants that are kept within the limit. -/
def Job.cut? (job : Job) (known : Constants) : Except Halt Constants :=
  match job.limit.count? with
  | some n => .ok (known.take n.toNat)
  | none => .error .uncountable

/-- The successors of an instruction that is reached with known constants, unless its targets are
refused. -/
def Job.successors (job : Job) (i : Instruction) (known : Constants) : Except Halt Successors :=
  match i.descriptor.kind with
  | .push => (job.cut? (known.afterPush i.immediate)).map (fun k => { fall := some k })
  | .plain =>
      if i.opcode = .jumpdest then .ok { fall := some [] }
      else (job.cut? (known.afterPlain i.descriptor)).map (fun k => { fall := some k })
  | .beginsub => .ok { fall := some [] }
  | .terminal => .ok {}
  | .returnsub => .ok { returns := true }
  | .jump => ((job.targets i known .jumpdest).mapError .rejected).map (fun ts => { jumps := ts })
  | .jumpi =>
      ((job.targets i known .jumpdest).mapError .rejected).map
        (fun ts => { fall := some (known.drop 2), jumps := ts })
  | .jumpsub => ((job.callTargets i known).mapError .rejected).map (fun ts => { calls := ts })

/-- The local checks of an instruction that a frame reaches with a depth and known constants: it is
decoded, its depths are within the limits and its targets are found. -/
structure Job.Passes (job : Job) (f : FrameId) (pc : Nat) (depth : Int) (known : Constants)
    (i : Instruction) (after : Int) (next : Successors) : Prop where
  inside : pc < job.program.length
  decoded : job.program.decode pc = .ok i
  depths : job.checkDepth f i depth = .ok (depth - i.descriptor.inputs, after)
  targets : job.successors i known = .ok next

/-- A depth behind a call that a frame may go on with. -/
def Job.Fits (job : Job) (f : FrameId) (depth : Int) : Prop :=
  depth ≤ job.limit.floor ∧ (f = .main → 0 ≤ depth)

/-! ## Facts -/

/-- A fact about the frames of a program. -/
inductive Fact where
  /-- The frame reaches a counter with a depth and known constants. -/
  | point (f : FrameId) (pc : Nat) (depth : Int) (known : Constants)
  /-- The frame calls an entry from a counter, with a depth behind the operands of the call. -/
  | call (f : FrameId) (pc : Nat) (depth : Int) (callee : Nat)
  /-- The frame returns with a depth. -/
  | ret (f : FrameId) (depth : Int)

/-- The facts that hold of a program: the least set that starts at the beginning of the code and
follows every instruction that passes its local checks. -/
inductive Reach (job : Job) : Fact → Prop
  | start : Reach job (.point .main 0 0 [])
  | fall {f : FrameId} {pc : Nat} {depth after : Int} {known known' : Constants} {i : Instruction}
      {next : Successors} (hpoint : Reach job (.point f pc depth known))
      (hpass : job.Passes f pc depth known i after next) (hfall : next.fall = some known') :
      Reach job (.point f i.next after known')
  | jump {f : FrameId} {pc target : Nat} {depth after : Int} {known : Constants} {i : Instruction}
      {next : Successors} (hpoint : Reach job (.point f pc depth known))
      (hpass : job.Passes f pc depth known i after next) (htarget : target ∈ next.jumps) :
      Reach job (.point f target after [])
  | call {f : FrameId} {pc target : Nat} {depth after : Int} {known : Constants} {i : Instruction}
      {next : Successors} (hpoint : Reach job (.point f pc depth known))
      (hpass : job.Passes f pc depth known i after next) (htarget : target ∈ next.calls) :
      Reach job (.call f pc after target)
  | enter {f : FrameId} {pc callee : Nat} {depth : Int}
      (hcall : Reach job (.call f pc depth callee)) :
      Reach job (.point (.entry callee) callee 0 [])
  | ret {f : FrameId} {pc : Nat} {depth after : Int} {known : Constants} {i : Instruction}
      {next : Successors} (hpoint : Reach job (.point f pc depth known))
      (hpass : job.Passes f pc depth known i after next) (hreturn : next.returns = true) :
      Reach job (.ret f after)
  | resume {f : FrameId} {pc callee : Nat} {depth net : Int} {i : Instruction}
      (hcall : Reach job (.call f pc depth callee)) (hret : Reach job (.ret (.entry callee) net))
      (hdecoded : job.program.decode pc = .ok i) :
      Reach job (.point f i.next (depth + net) [])

/-- Everything reached passes its local checks, every counter of a frame has one depth, every frame
returns with one depth, the main program does not return, and every resumption fits. -/
structure Consistent (job : Job) : Prop where
  passes : ∀ {f pc depth known}, Reach job (.point f pc depth known) → pc < job.program.length →
    ∃ i after next, job.Passes f pc depth known i after next
  one_depth : ∀ {f pc depth depth' known known'}, Reach job (.point f pc depth known) →
    Reach job (.point f pc depth' known') → pc < job.program.length → depth = depth'
  one_return : ∀ {f depth depth'}, Reach job (.ret f depth) → Reach job (.ret f depth') →
    depth = depth'
  no_stray : ∀ {depth}, ¬ Reach job (.ret .main depth)
  fits : ∀ {f pc depth callee net}, Reach job (.call f pc depth callee) →
    Reach job (.ret (.entry callee) net) → job.Fits f (depth + net)

variable {job : Job} {f : FrameId} {pc : Nat} {depth after : Int} {known : Constants}
  {i : Instruction} {next : Successors}

/-! ## Shape of the successors -/

/-- The targets of a site that is not refused: the one that is known from the code, which the table
does not forbid, or else all those that the table declares. -/
theorem Job.targets_cases {marker : Marker} {ts : List Nat}
    (h : job.targets i known marker = .ok ts) :
    (∃ t, known.top? = some t ∧ ts = [t] ∧ job.program.hasMarker marker t = true ∧
      (job.table.hasSource i.pc = true → job.table.hasEdge i.pc t = true)) ∨
    (known.top? = none ∧ ts = job.table.targets i.pc ∧ ts ≠ [] ∧
      ∀ t ∈ ts, job.program.hasMarker marker t = true) := by
  unfold Job.targets at h
  cases htop : known.top? with
  | some target =>
      simp only [htop] at h
      split at h
      · simp [refuse] at h
      · rename_i hmark
        split at h
        · simp [refuse] at h
        · rename_i hallowed
          cases h
          exact Or.inl ⟨target, rfl, rfl, by simpa using hmark, fun hsource => by
            simpa [hsource] using hallowed⟩
  | none =>
      simp only [htop] at h
      split at h
      · simp [refuse] at h
      · rename_i hne
        split at h
        · simp [refuse] at h
        · rename_i hall
          cases h
          refine Or.inr ⟨rfl, rfl, by simpa using hne, fun t ht => ?_⟩
          simpa using List.find?_eq_none.1 hall t ht

theorem Job.targets_marker {marker : Marker} {ts : List Nat} {t : Nat}
    (h : job.targets i known marker = .ok ts) (ht : t ∈ ts) :
    job.program.hasMarker marker t = true := by
  rcases Job.targets_cases h with ⟨target, -, rfl, hmark, -⟩ | ⟨-, -, -, hmarks⟩
  · rwa [List.mem_singleton.1 ht]
  · exact hmarks t ht

theorem Job.callTargets_marker {ts : List Nat} (h : job.callTargets i known = .ok ts)
    {t : Nat} (ht : t ∈ ts) : job.program.isEntry t = true := by
  unfold Job.callTargets at h
  cases himm : i.immediate with
  | some target =>
      simp only [himm] at h
      split at h
      · rename_i hentry
        obtain rfl : [target] = ts := by simpa using h
        obtain rfl : t = target := by simpa using ht
        exact hentry
      · simp [refuse] at h
  | none =>
      simp only [himm] at h
      exact Job.targets_marker h ht

theorem map_mapError_eq_ok {ε ε' α β : Type} {x : Except ε α} {g : ε → ε'} {h : α → β} {b : β} :
    (x.mapError g).map h = .ok b ↔ ∃ a, x = .ok a ∧ h a = b := by
  cases x with
  | error e => simp [Except.mapError, Except.map]
  | ok a => simp [Except.mapError, Except.map]

theorem map_cut?_eq_ok {k : Constants} {g : Constants → Successors}
    (h : (job.cut? k).map g = .ok next) : ∃ k', job.cut? k = .ok k' ∧ g k' = next := by
  cases hcut : job.cut? k with
  | error e => simp [hcut, Except.map] at h
  | ok k' => exact ⟨k', rfl, by simpa [hcut, Except.map] using h⟩

/-- What the successors of an instruction look like, kind by kind. -/
theorem Job.successors_cases (h : job.successors i known = .ok next) :
    match i.descriptor.kind with
    | .push => ∃ k, job.cut? (known.afterPush i.immediate) = .ok k ∧ next = { fall := some k }
    | .plain =>
        (i.opcode = .jumpdest ∧ next = { fall := some [] }) ∨
          (i.opcode ≠ .jumpdest ∧
            ∃ k, job.cut? (known.afterPlain i.descriptor) = .ok k ∧ next = { fall := some k })
    | .beginsub => next = { fall := some [] }
    | .terminal => next = {}
    | .returnsub => next = { returns := true }
    | .jump => ∃ ts, job.targets i known .jumpdest = .ok ts ∧ next = { jumps := ts }
    | .jumpi =>
        ∃ ts, job.targets i known .jumpdest = .ok ts ∧
          next = { fall := some (known.drop 2), jumps := ts }
    | .jumpsub => ∃ ts, job.callTargets i known = .ok ts ∧ next = { calls := ts } := by
  unfold Job.successors at h
  cases hkind : i.descriptor.kind <;> simp only [hkind] at h ⊢
  case push =>
    obtain ⟨k, hcut, rfl⟩ := map_cut?_eq_ok h
    exact ⟨k, hcut, rfl⟩
  case plain =>
    split at h
    · rename_i hop
      exact Or.inl ⟨hop, by simpa using h.symm⟩
    · rename_i hop
      obtain ⟨k, hcut, rfl⟩ := map_cut?_eq_ok h
      exact Or.inr ⟨hop, k, hcut, rfl⟩
  case jump | jumpi | jumpsub =>
    obtain ⟨ts, hts, rfl⟩ := map_mapError_eq_ok.1 h
    exact ⟨ts, hts, rfl⟩
  all_goals simpa using h.symm

/-- Jumps land on jump destinations. -/
theorem Job.successors_jumps (h : job.successors i known = .ok next) {t : Nat}
    (ht : t ∈ next.jumps) : job.program.hasMarker .jumpdest t = true := by
  have hcases := Job.successors_cases h
  cases hkind : i.descriptor.kind <;> simp only [hkind] at hcases
  case jump | jumpi =>
    obtain ⟨ts, hts, rfl⟩ := hcases
    exact Job.targets_marker hts ht
  case plain =>
    rcases hcases with ⟨-, rfl⟩ | ⟨-, k, -, rfl⟩ <;> simp at ht
  case push | jumpsub =>
    obtain ⟨k, -, rfl⟩ := hcases
    simp at ht
  all_goals
    subst hcases
    simp at ht

/-- Only calls have callees, and these are subroutine entries. -/
theorem Job.successors_calls (h : job.successors i known = .ok next) {t : Nat}
    (ht : t ∈ next.calls) :
    i.descriptor.kind = .jumpsub ∧ job.program.hasMarker .entry t = true := by
  have hcases := Job.successors_cases h
  cases hkind : i.descriptor.kind <;> simp only [hkind] at hcases
  case jumpsub =>
    obtain ⟨ts, hts, rfl⟩ := hcases
    exact ⟨rfl, Job.callTargets_marker hts ht⟩
  case plain =>
    rcases hcases with ⟨-, rfl⟩ | ⟨-, k, -, rfl⟩ <;> simp at ht
  case push | jump | jumpi =>
    obtain ⟨k, -, rfl⟩ := hcases
    simp at ht
  all_goals
    subst hcases
    simp at ht

/-- Only a return returns. -/
theorem Job.successors_returns (h : job.successors i known = .ok next)
    (hreturn : next.returns = true) : i.descriptor.kind = .returnsub := by
  have hcases := Job.successors_cases h
  cases hkind : i.descriptor.kind <;> simp only [hkind] at hcases
  case plain =>
    rcases hcases with ⟨-, rfl⟩ | ⟨-, k, -, rfl⟩ <;> simp at hreturn
  case push | jump | jumpi | jumpsub =>
    obtain ⟨k, -, rfl⟩ := hcases
    simp at hreturn
  case returnsub => rfl
  all_goals
    subst hcases
    simp at hreturn

/-- A jump destination and a subroutine entry forget what was known. -/
theorem Job.successors_of_marker {marker : Marker} {known' : Constants}
    (hi : i = job.program.instructionOf pc (Program.markerOpcode marker)) :
    job.successors i known = job.successors i known' := by
  subst hi
  cases marker with
  | jumpdest =>
      simp [Job.successors, Program.instructionOf, Program.markerOpcode, OperandMode.describe,
        Instruction.opcode]
  | entry =>
      simp [Job.successors, Program.instructionOf, Program.markerOpcode, OperandMode.describe]

/-- What is known matters for the successors only where no landing marker stands. -/
theorem Job.successors_congr {known' : Constants} (hdecoded : job.program.decode pc = .ok i)
    (hknown : (∀ marker, job.program.hasMarker marker pc = false) → known = known') :
    job.successors i known = job.successors i known' := by
  by_cases hmark : ∃ marker, job.program.hasMarker marker pc = true
  · obtain ⟨marker, hmarker⟩ := hmark
    have hi := (Program.decode_of_hasMarker hmarker).2
    rw [hdecoded] at hi
    exact Job.successors_of_marker (by simpa using hi)
  · rw [hknown (fun marker => by simpa using not_exists.1 hmark marker)]

/-! ## The constants of a counter -/

namespace Reach

/-- A call comes from a call instruction inside the code and enters a subroutine entry. -/
theorem of_call {callee : Nat} (h : Reach job (.call f pc depth callee)) :
    pc < job.program.length ∧ job.program.hasMarker .entry callee = true ∧
      ∃ i, job.program.decode pc = .ok i ∧ i.descriptor.kind = .jumpsub := by
  cases h with
  | call hpoint hpass htarget =>
      obtain ⟨hkind, hmark⟩ := Job.successors_calls hpass.targets htarget
      exact ⟨hpass.inside, hmark, _, hpass.decoded, hkind⟩

/-- How a counter that is no landing marker is reached: at the start of the code, behind a call, or
from the instruction in front of it. -/
theorem point_cases (h : Reach job (.point f pc depth known)) :
    (pc = 0 ∧ known = []) ∨ (∃ marker, job.program.hasMarker marker pc = true) ∨
      (∃ q i, q < job.program.length ∧ job.program.decode q = .ok i ∧
        i.descriptor.kind = .jumpsub ∧ i.next = pc ∧ known = []) ∨
      ∃ q i depth' after known' next, Reach job (.point f q depth' known') ∧
        job.Passes f q depth' known' i after next ∧ i.next = pc ∧ next.fall = some known := by
  cases h with
  | start => exact Or.inl ⟨rfl, rfl⟩
  | fall hpoint hpass hfall =>
      exact Or.inr (Or.inr (Or.inr ⟨_, _, _, _, _, _, hpoint, hpass, rfl, hfall⟩))
  | jump hpoint hpass htarget =>
      exact Or.inr (Or.inl ⟨_, Job.successors_jumps hpass.targets htarget⟩)
  | enter hcall => exact Or.inr (Or.inl ⟨_, hcall.of_call.2.1⟩)
  | resume hcall hret hdecoded =>
      obtain ⟨hinside, -, i, hi, hkind⟩ := hcall.of_call
      rw [hdecoded] at hi
      cases hi
      exact Or.inr (Or.inr (Or.inl ⟨_, _, hinside, hdecoded, hkind, rfl, rfl⟩))

theorem next_pos (i : Instruction) : 0 < i.next := by
  rw [Instruction.next]
  omega

/-- No instruction goes on to where a call is resumed: it would be the call itself. -/
theorem fall_of_next_eq {q q' : Nat} {i' : Instruction} (hq : q < job.program.length)
    (hdecoded : job.program.decode q = .ok i) (hkind : i.descriptor.kind = .jumpsub)
    (hpass : job.Passes f q' depth known i' after next) (hnext : i.next = i'.next) :
    next.fall = none := by
  obtain rfl := Program.decode_next_injective hq hdecoded hpass.inside hpass.decoded hnext
  obtain rfl : i' = i := by simpa [hdecoded] using hpass.decoded.symm
  have hcases := Job.successors_cases hpass.targets
  simp only [hkind] at hcases
  obtain ⟨ts, -, rfl⟩ := hcases
  rfl

/-- Away from landing markers, the known constants depend on the counter alone. -/
theorem known_unique {f' : FrameId} {depth' : Int} {known' : Constants}
    (h : Reach job (.point f pc depth known)) (h' : Reach job (.point f' pc depth' known'))
    (hplain : ∀ marker, job.program.hasMarker marker pc = false) : known = known' := by
  induction pc using Nat.strongRecOn generalizing f f' depth depth' known known' with
  | ind pc ih =>
      -- one case for each way in which the two facts arise; only equal ways fit together
      rcases point_cases h with ⟨rfl, rfl⟩ | ⟨m, hm⟩ | ⟨q, i, hq, hd, hk, hn, rfl⟩ |
        ⟨q, i, _, _, _, next, hpoint, hpass, hn, hfall⟩
      · rcases point_cases h' with ⟨-, rfl⟩ | ⟨m, hm⟩ | ⟨_, i, _, _, _, hn, -⟩ |
          ⟨_, i, _, _, _, _, _, _, hn, _⟩
        · rfl
        · exact absurd hm (by simp [hplain])
        · exact absurd hn (Nat.ne_of_gt (next_pos i))
        · exact absurd hn (Nat.ne_of_gt (next_pos i))
      · exact absurd hm (by simp [hplain])
      · rcases point_cases h' with ⟨rfl, -⟩ | ⟨m, hm⟩ | ⟨_, _, _, _, _, _, rfl⟩ |
          ⟨q', i', _, _, _, next', hpoint', hpass', hn', hfall'⟩
        · exact absurd hn (Nat.ne_of_gt (next_pos i))
        · exact absurd hm (by simp [hplain])
        · rfl
        · rw [fall_of_next_eq hq hd hk hpass' (hn.trans hn'.symm)] at hfall'
          cases hfall'
      · rcases point_cases h' with ⟨rfl, -⟩ | ⟨m, hm⟩ | ⟨q', i', hq', hd', hk', hn', -⟩ |
          ⟨q', i', _, _, _, next', hpoint', hpass', hn', hfall'⟩
        · exact absurd hn (Nat.ne_of_gt (next_pos i))
        · exact absurd hm (by simp [hplain])
        · rw [fall_of_next_eq hq' hd' hk' hpass (hn'.trans hn.symm)] at hfall
          cases hfall
        · obtain rfl := Program.decode_next_injective hpass.inside hpass.decoded hpass'.inside
            hpass'.decoded (hn.trans hn'.symm)
          have hi := hpass'.decoded
          rw [hpass.decoded] at hi
          cases hi
          -- both facts come from the same instruction, so what it knew is settled by induction
          have hlt : q < pc := by
            rw [← hn, Instruction.next, Program.decode_pc hpass.decoded]
            omega
          have hnext := hpass'.targets
          rw [← Job.successors_congr hpass.decoded (ih q hlt hpoint hpoint'), hpass.targets]
            at hnext
          cases hnext
          rw [hfall] at hfall'
          simpa using hfall'

/-- Two facts about one counter have the same successors. -/
theorem successors_unique {f' : FrameId} {depth' : Int} {known' : Constants}
    (h : Reach job (.point f pc depth known)) (h' : Reach job (.point f' pc depth' known'))
    (hdecoded : job.program.decode pc = .ok i) :
    job.successors i known = job.successors i known' :=
  Job.successors_congr hdecoded (known_unique h h')

end Reach

end FlowCheck.Validator
