import FlowCheck.Proofs.Growth
import FlowCheck.Proofs.TableQueries
import FlowCheck.Validator.Report
import Mathlib.Algebra.BigOperators.Ring.Finset
import Mathlib.Algebra.Order.BigOperators.Group.Finset

/-!
# How many steps a traversal makes

A frame expands each of its counters once.  Expanding a counter earns the paths that it pushes: one
for a resolved target, one for each declared edge, one for each call, which is resumed once.
Opening a frame earns its first path.  So the paths taken, those on the worklist and the calls that
wait for a return never exceed what the open frames have earned (`Counted.paths`), and every step
either expands a counter or ends a path (`Counted.steps`).

Summed over a frame this is linear in the code and the table.  It follows that the fuel of the
traversal is never used up, and that a ceiling of twice the size of the input is never reached.
-/

namespace FlowCheck.Validator

variable {job : Job} {s : State} {fs : Frames} {f : FrameId} {pc : Nat} {depth : Int}
  {known : Constants} {i : Instruction} {next : Successors} {taken spare ahead : Nat}

/-! ## What frames have earned -/

/-- The sum of a weight over the counters that a frame has visited. -/
def Frame.weigh (job : Job) (w : Nat → Nat) (F : Frame) : Nat :=
  ∑ pc ∈ Finset.range job.program.length, if pc ∈ F.depths then w pc else 0

theorem Frame.weigh_visited {F : Frame} {w : Nat → Nat} (hpc : pc < job.program.length)
    (hnew : F.depths[pc]? = none) :
    (F.visited pc depth).weigh job w = F.weigh job w + w pc := by
  have hsplit : ∀ pc', (if pc' ∈ (F.visited pc depth).depths then w pc' else 0) =
      (if pc' ∈ F.depths then w pc' else 0) + if pc = pc' then w pc' else 0 := by
    intro pc'
    have hfresh : pc ∉ F.depths := by simpa using hnew
    by_cases heq : pc = pc'
    · subst heq
      simp [Frame.visited, hfresh]
    · simp [Frame.visited, heq]
  simp only [Frame.weigh, hsplit, Finset.sum_add_distrib, Finset.sum_ite_eq, Finset.mem_range, hpc,
    if_true]

theorem Frame.weigh_le (job : Job) (F : Frame) (w : Nat → Nat) :
    F.weigh job w ≤ ∑ pc ∈ Finset.range job.program.length, w pc := by
  refine Finset.sum_le_sum fun pc _ => ?_
  split
  · exact Nat.le_refl _
  · exact Nat.zero_le _

/-- The counters that a frame has expanded. -/
def Frame.expansions (job : Job) (F : Frame) : Nat :=
  F.weigh job (fun _ => 1)

/-- The paths that a frame may push: its first one, and what its expanded counters earn. -/
def Frame.credit (job : Job) (F : Frame) : Nat :=
  1 + F.weigh job (fun pc => 1 + (job.table.targets pc).length)

/-- The calls of a frame that wait for its first return. -/
def Frame.waiting (F : Frame) : Nat :=
  if F.net = none then F.callers.length else 0

/-- The declared edges of all counters are edges of the table. -/
theorem sum_targets_le (t : JumpTable) (n : Nat) :
    ∑ pc ∈ Finset.range n, (t.targets (pc : Nat)).length ≤ t.size := by
  have hlist : ∀ l : List Edge,
      ∑ pc ∈ Finset.range n, (l.filter (fun e => (e.source : Int) == (pc : Nat))).length ≤
        l.length := by
    intro l
    induction l with
    | nil => simp
    | cons e rest ih =>
        have hcons : ∀ pc : Nat,
            ((e :: rest).filter (fun e => (e.source : Int) == (pc : Nat))).length =
              (rest.filter (fun e => (e.source : Int) == (pc : Nat))).length +
                if e.source = pc then 1 else 0 := by
          intro pc
          by_cases heq : e.source = pc
          · simp [heq]
          · have : ¬ (e.source : Int) = (pc : Nat) := by omega
            simp [heq, this]
        simp only [hcons, Finset.sum_add_distrib, Finset.sum_ite_eq, List.length_cons]
        split <;> omega
  simpa [JumpTable.targets_eq_filter, JumpTable.size] using hlist t.edges.toList

theorem Frame.expansions_le (job : Job) (F : Frame) : F.expansions job ≤ job.program.length := by
  simpa [Frame.expansions] using F.weigh_le job (fun _ => 1)

theorem Frame.credit_le (job : Job) (F : Frame) :
    F.credit job ≤ job.program.length + job.table.size + 1 := by
  have hweigh := F.weigh_le job (fun pc => 1 + (job.table.targets pc).length)
  have htable := sum_targets_le job.table job.program.length
  have hones : ∑ _pc ∈ Finset.range job.program.length, 1 = job.program.length := by simp
  rw [Finset.sum_add_distrib, hones] at hweigh
  rw [Frame.credit]
  omega

/-- A program has no more frames than counters, and the main program. -/
theorem State.Justified.frames_le (h : s.Justified job) :
    s.frames.size ≤ job.program.length + 1 := by
  have hsub : s.frames.ids ⊆ .main :: (List.range job.program.length).map FrameId.entry := by
    intro id hid
    cases id with
    | main => exact List.mem_cons_self ..
    | entry e =>
        have hopen : s.frames.find? (.entry e) ≠ none := by
          rw [Ne, Frames.find?_eq_none_iff, not_not]
          exact hid
        obtain ⟨g, pc, depth, hcall⟩ := h.opened e hopen
        have he := (Program.decode_of_hasMarker hcall.of_call.2.1).1
        exact List.mem_cons_of_mem _ (List.mem_map.2 ⟨e, List.mem_range.2 he, rfl⟩)
  have hlength := (h.nodup.subperm hsub).length_le
  rw [Frames.size_eq_length_ids]
  simpa using hlength

/-! ## The count -/

/-- What the steps of a traversal never exceed. -/
def Metered (job : Job) (s : State) : Prop :=
  s.steps ≤ s.frames.total (Frame.expansions job) + s.frames.total (Frame.credit job)

/-- The accounts of a traversal that has taken so many paths: `spare` paths may still be pushed by
the instruction being dispatched, and `ahead` steps by the path being followed. -/
structure Counted (job : Job) (taken spare ahead : Nat) (s : State) : Prop where
  paths : taken + s.worklist.length + s.frames.total Frame.waiting + spare ≤
    s.frames.total (Frame.credit job)
  steps : s.steps + ahead ≤ s.frames.total (Frame.expansions job) + taken

/-- A traversal that ends early is within its accounts, and if it is stopped by the ceiling then the
ceiling is exceeded. -/
structure Stopped (job : Job) (e : Halt) (s : State) : Prop where
  metered : Metered job s
  exceeded : ∀ r, e = .rejected r → r.cause.reason = .stepLimitExceeded →
    (job.ceiling s.frames.size).floor < s.steps

theorem Counted.metered (h : Counted job taken spare ahead s) : Metered job s := by
  have hpaths := h.paths
  have hsteps := h.steps
  unfold Metered
  omega

theorem Counted.stopped {r : Rejection} (h : Counted job taken spare ahead s)
    (hr : r.cause.reason ≠ .stepLimitExceeded) : Stopped job (.rejected r) s := by
  refine ⟨h.metered, fun r' heq hreason => ?_⟩
  cases heq
  exact absurd hreason hr

theorem Counted.mono {spare' ahead' : Nat} (h : Counted job taken spare ahead s)
    (hspare : spare' ≤ spare) (hahead : ahead' ≤ ahead) : Counted job taken spare' ahead' s := by
  have hpaths := h.paths
  have hsteps := h.steps
  exact ⟨by omega, by omega⟩

/-- Linear in the size of the input for each frame. -/
theorem Metered.steps_le (h : Metered job s) :
    s.steps ≤ s.frames.size * (2 * job.program.length + job.table.size + 1) := by
  have hexpansions := Frames.total_le (fun F (_ : F ∈ s.frames.toList) => F.expansions_le job)
  have hcredit := Frames.total_le (fun F (_ : F ∈ s.frames.toList) => F.credit_le job)
  unfold Metered at h
  calc s.steps ≤ s.frames.total (Frame.expansions job) + s.frames.total (Frame.credit job) := h
    _ ≤ s.frames.size * job.program.length +
        s.frames.size * (job.program.length + job.table.size + 1) := by omega
    _ = s.frames.size * (2 * job.program.length + job.table.size + 1) := by
        rw [← Nat.mul_add]
        congr 1
        omega

/-- The paths taken are fewer than the fuel of a traversal. -/
theorem Counted.taken_lt (h : Counted job taken spare ahead s) (hs : s.Justified job) :
    taken < job.pathBound := by
  have hpaths := h.paths
  have hcredit := Frames.total_le (fun F (_ : F ∈ s.frames.toList) => F.credit_le job)
  have hframes := Nat.mul_le_mul_right (job.program.length + job.table.size + 1) hs.frames_le
  unfold Job.pathBound
  omega

/-- A ceiling of twice the size of the input for each frame is not exceeded. -/
theorem Metered.not_exceeded {program : Program} {table : JumpTable} {limit : Amount} {factor : Int}
    (hfactor : 2 ≤ factor) (h : Metered (Job.make program table limit (.whole factor)) s) :
    ¬ ((Job.make program table limit (.whole factor)).ceiling s.frames.size).floor < s.steps := by
  have hsteps := h.steps_le
  obtain ⟨size, hsize⟩ : ∃ size, size = program.length + table.size + 1 := ⟨_, rfl⟩
  obtain ⟨count, hcount⟩ : ∃ count, count = max 1 s.frames.size := ⟨_, rfl⟩
  -- the ceiling counts at least one frame, so the bound for each frame is compared with that count
  have hframes : s.steps ≤ count * (2 * size) := by
    refine Nat.le_trans hsteps (Nat.mul_le_mul (hcount ▸ Nat.le_max_right ..) ?_)
    simp only [Job.make]
    omega
  have hceiling : ((count * (2 * size) : Nat) : Int) ≤ factor * (size : Nat) * (count : Nat) := by
    have hfactors : (2 : Int) * size ≤ factor * size :=
      Int.mul_le_mul_of_nonneg_right hfactor (Int.natCast_nonneg size)
    calc ((count * (2 * size) : Nat) : Int)
        = 2 * size * count := by push_cast; exact Int.mul_comm _ _
      _ ≤ factor * size * count := Int.mul_le_mul_of_nonneg_right hfactors (Int.natCast_nonneg _)
  simp only [Job.ceiling, Job.make, Amount.times_whole, Amount.floor_whole, ← hsize, ← hcount]
  omega

/-! ## The operations of a traversal -/

theorem Frames.total_recordCall {w : Frame → Nat} {site : CallSite}
    (hcaller : ∀ F, w (F.withCaller site) = w F) (hcall : ∀ F, w (F.withCall site) = w F)
    (fs : Frames) : (fs.recordCall site).total w = fs.total w := by
  rw [Frames.recordCall, Frames.total_modify_eq _ hcall, Frames.total_modify_eq _ hcaller]

/-- A recorded call waits if its callee has not returned yet. -/
theorem Frames.waiting_recordCall {site : CallSite} {F : Frame}
    (hF : fs.find? (.entry site.callee) = some F) :
    (fs.recordCall site).total Frame.waiting =
      fs.total Frame.waiting + if F.net = none then 1 else 0 := by
  have hcall : ∀ G : Frame, (G.withCall site).waiting = G.waiting := fun _ => rfl
  have hmodify := Frames.total_modify (·.withCaller site) Frame.waiting hF
  rw [Frames.recordCall, Frames.total_modify_eq _ hcall]
  by_cases hnet : F.net = none
  · simp only [Frame.waiting, Frame.withCaller, hnet, if_true, List.length_append,
      List.length_singleton] at hmodify ⊢
    omega
  · simp only [Frame.waiting, Frame.withCaller, hnet, if_false] at hmodify ⊢
    omega

theorem Frames.net_recordCall {site : CallSite} {F : Frame}
    (hF : fs.find? (.entry site.callee) = some F) :
    ((fs.recordCall site).find? (.entry site.callee)).bind Frame.net = F.net := by
  obtain ⟨F', hfind, -⟩ := Frames.Grows.recordCall fs site _ F hF
  obtain ⟨G, hG, -, hnet, -⟩ := Frames.find?_recordCall hfind
  rw [hF] at hG
  cases hG
  simpa [hfind] using hnet

/-- A frame that is opened brings the credit for the path at its entry. -/
theorem counted_openFrame {target : Nat} (h : Counted job taken spare ahead s)
    (hf : s.frames.find? f ≠ none) :
    Ensures (openFrame target) s (fun _ s' => Counted job taken spare ahead s' ∧
      s'.frames.find? f ≠ none ∧ s'.frames.find? (.entry target) ≠ none)
      (fun e s' => Stopped job e s') := by
  have hpaths := h.paths
  have hsteps := h.steps
  refine ensures_openFrame (fun hopen => ⟨h, hf, hopen⟩) (fun _ => ⟨⟨?_, ?_⟩, ?_, ?_⟩)
  · simp only [Frames.total_add, List.length_cons, Frame.waiting, Frame.credit, Frame.weigh]
    simp
    omega
  · simp only [Frames.total_add]
    omega
  · exact Frames.find?_add_ne_none hf _
  · exact Frames.find?_add_self_ne_none _ _

/-- A recorded call uses up a path if it has to wait for its callee. -/
theorem Counted.recordCall {site : CallSite} {F : Frame} (h : Counted job taken (spare + 1) ahead s)
    (hF : s.frames.find? (.entry site.callee) = some F) :
    Counted job taken (if F.net = none then spare else spare + 1) ahead
      { s with frames := s.frames.recordCall site } := by
  have hcredit : (s.frames.recordCall site).total (Frame.credit job) =
      s.frames.total (Frame.credit job) :=
    Frames.total_recordCall (fun _ => rfl) (fun _ => rfl) _
  have hexpansions : (s.frames.recordCall site).total (Frame.expansions job) =
      s.frames.total (Frame.expansions job) :=
    Frames.total_recordCall (fun _ => rfl) (fun _ => rfl) _
  have hpaths := h.paths
  have hsteps := h.steps
  refine ⟨?_, ?_⟩
  · simp only [Frames.waiting_recordCall hF, hcredit]
    split <;> omega
  · simp only [hexpansions]
    omega

/-- A call uses up one of the paths that its instruction may push. -/
theorem counted_call {target : Nat} (h : Counted job taken (spare + 1) ahead s)
    (hf : s.frames.find? f ≠ none) :
    Ensures (call job f i depth target) s
      (fun _ s' => Counted job taken spare ahead s' ∧ s'.frames.find? f ≠ none)
      (fun e s' => Stopped job e s') := by
  obtain ⟨site, hsite⟩ : ∃ site : CallSite, site = ⟨f, target, i.pc, i.next, depth⟩ := ⟨_, rfl⟩
  have htarget : target = site.callee := by rw [hsite]
  refine ensures_call hsite ((counted_openFrame h hf).mono ?_ (fun _ _ h => h))
  rintro _ s' ⟨hs', hf', hcallee⟩
  rw [htarget] at hcallee ⊢
  obtain ⟨F, hF⟩ := Option.ne_none_iff_exists'.1 hcallee
  have hopen := (Frames.Grows.recordCall s'.frames site).open_ hf'
  have hrecorded := hs'.recordCall hF
  rw [Frames.net_recordCall hF]
  refine ⟨fun hnone => ⟨?_, hopen⟩, fun net hsome => ?_⟩
  · rwa [if_pos hnone] at hrecorded
  · -- the callee has returned, so the call does not wait but is resumed at once
    rw [if_neg (by simp [hsome])] at hrecorded
    refine ensures_resume (fun _ => ⟨⟨?_, hrecorded.steps⟩, hopen⟩)
      (fun r hr _ => hrecorded.stopped hr)
    have hpaths := hrecorded.paths
    simp only [List.length_cons] at hpaths ⊢
    omega

/-- The first return of a frame resumes the calls that waited for it. -/
theorem counted_returnFrom (h : Counted job taken spare ahead s) :
    Ensures (returnFrom job f i depth) s (fun _ s' => Counted job taken spare ahead s')
      (fun e s' => Stopped job e s') := by
  refine ensures_returnFrom (fun r hr _ => h.stopped hr) (fun _ _ => h) ?_ (fun _ _ _ _ => h)
    (fun r _ _ hr _ _ _ _ => h.stopped hr)
  intro F _ hF hnone
  have hwaiting := Frames.total_modify (·.returned depth) Frame.waiting hF
  have hcredit : (s.frames.modify f (·.returned depth)).total (Frame.credit job) =
      s.frames.total (Frame.credit job) :=
    Frames.total_modify_eq (·.returned depth) (fun _ => rfl) _ _
  have hexpansions : (s.frames.modify f (·.returned depth)).total (Frame.expansions job) =
      s.frames.total (Frame.expansions job) :=
    Frames.total_modify_eq (·.returned depth) (fun _ => rfl) _ _
  have hpaths := h.paths
  have hsteps := h.steps
  have hbefore : F.waiting = F.callers.length := by simp [Frame.waiting, hnone]
  have hafter : (F.returned depth).waiting = 0 := by simp [Frame.waiting, Frame.returned]
  -- the calls that waited are paths now, so their sum stays
  refine ensures_resumeAll (fun _ => ⟨?_, ?_⟩) ?_
  · simp only [hcredit, List.length_append, List.length_reverse, List.length_map]
    omega
  · simp only [hexpansions]
    omega
  · intro r _ s' hr _ _ hframes hsteps'
    refine ⟨?_, fun r' heq hreason => ?_⟩
    · rw [Metered, hframes, hsteps']
      simp only [hcredit, hexpansions]
      omega
    · cases heq
      exact absurd hreason hr

/-- An instruction has no more targets than it earns. -/
theorem Job.targets_length {marker : Marker} {ts : List Nat}
    (h : job.targets i known marker = .ok ts) :
    ts.length ≤ 1 + (job.table.targets i.pc).length := by
  rcases Job.targets_cases h with ⟨t, -, rfl, -⟩ | ⟨-, rfl, -⟩
  · simp
  · exact Nat.le_add_left _ _

theorem Job.successors_length (h : job.successors i known = .ok next) :
    next.jumps.length + next.calls.length ≤ 1 + (job.table.targets i.pc).length := by
  have hcases := Job.successors_cases h
  cases hkind : i.descriptor.kind <;> simp only [hkind] at hcases
  case jump | jumpi =>
    obtain ⟨ts, hts, rfl⟩ := hcases
    exact Job.targets_length hts
  case jumpsub =>
    obtain ⟨ts, hts, rfl⟩ := hcases
    simp only [List.length_nil, Nat.zero_add]
    unfold Job.callTargets at hts
    split at hts
    · split at hts
      · cases hts
        simp
      · simp [refuse] at hts
    · exact Job.targets_length hts
  case plain =>
    rcases hcases with ⟨-, rfl⟩ | ⟨-, k, -, rfl⟩ <;> simp
  case push =>
    obtain ⟨k, -, rfl⟩ := hcases
    simp
  all_goals
    subst hcases
    simp

/-- A refused target is an invalid jump destination of its instruction. -/
theorem Job.targets_error {marker : Marker} {r : Rejection}
    (h : job.targets i known marker = .error r) :
    ∃ cause : Cause, r = ⟨cause, some i.pc, some i.offender⟩ ∧
      cause.reason = .invalidJumpDestination := by
  unfold Job.targets at h
  cases htop : known.top? with
  | some target =>
      simp only [htop] at h
      split at h
      · cases h
        exact ⟨_, rfl, rfl⟩
      · split at h <;> cases h
        exact ⟨_, rfl, rfl⟩
  | none =>
      simp only [htop] at h
      split at h
      · cases h
        exact ⟨_, rfl, rfl⟩
      · split at h <;> cases h
        exact ⟨_, rfl, rfl⟩

theorem Job.callTargets_error {r : Rejection} (h : job.callTargets i known = .error r) :
    ∃ cause : Cause, r = ⟨cause, some i.pc, some i.offender⟩ ∧
      cause.reason = .invalidJumpDestination := by
  unfold Job.callTargets at h
  split at h
  · split at h <;> cases h
    exact ⟨_, rfl, rfl⟩
  · exact Job.targets_error h

/-- Only a jump or a call is refused for where it goes. -/
theorem Job.successors_error {r : Rejection} (h : job.successors i known = .error (.rejected r)) :
    i.descriptor.kind ∈ [Kind.jump, .jumpi, .jumpsub] ∧
      ∃ cause : Cause, r = ⟨cause, some i.pc, some i.offender⟩ ∧
        cause.reason = .invalidJumpDestination := by
  have hcut : ∀ (k : Constants) (g : Constants → Successors),
      (job.cut? k).map g ≠ .error (.rejected r) := by
    intro k g
    unfold Job.cut?
    split <;> simp [Except.map]
  have herror : ∀ {x : Except Rejection (List Nat)} {g : List Nat → Successors},
      (x.mapError Halt.rejected).map g = .error (.rejected r) → x = .error r := by
    intro x g hx
    cases x <;> simp_all [Except.mapError, Except.map]
  unfold Job.successors at h
  cases hkind : i.descriptor.kind <;> simp only [hkind] at h
  case push => exact absurd h (hcut _ _)
  case plain =>
    split at h
    · cases h
    · exact absurd h (hcut _ _)
  case jump | jumpi => exact ⟨by simp, Job.targets_error (herror h)⟩
  case jumpsub => exact ⟨by simp, Job.callTargets_error (herror h)⟩
  all_goals cases h

theorem counted_dispatch (h : Counted job taken (1 + (job.table.targets i.pc).length) ahead s)
    (hf : s.frames.find? f ≠ none) :
    Ensures (dispatch job f i depth known) s (fun _ s' => Counted job taken 0 ahead s')
      (fun e s' => Stopped job e s') := by
  refine ensures_dispatch (fun e he => ?_) (fun next hnext => ?_)
  · refine ⟨h.metered, fun r heq hreason => ?_⟩
    subst heq
    obtain ⟨-, cause, rfl, hcause⟩ := Job.successors_error he
    rw [hcause] at hreason
    cases hreason
  · have hlength := Job.successors_length hnext
    have hpushed : Counted job taken next.calls.length ahead { s with
        worklist := (next.jumps.map (fun t => ⟨f, t, depth⟩)).reverse ++ s.worklist } := by
      refine ⟨?_, h.steps⟩
      have hpaths := h.paths
      simp only [List.length_append, List.length_reverse, List.length_map]
      omega
    -- each call uses up one of the spare paths, so as many are left as there are calls to go
    refine (Ensures.of_forM_rest (P := fun rest s =>
      Counted job taken rest.length ahead s ∧ s.frames.find? f ≠ none) ?_ ⟨hpushed, hf⟩).mono ?_
        (fun _ _ h => h)
    · rintro t rest s' ⟨hs', hf'⟩
      exact counted_call hs' hf'
    · rintro _ s' ⟨hs', -⟩
      exact ⟨fun _ => counted_returnFrom hs', fun _ => hs'⟩

/-- A counter that is expanded earns a step and the paths that it may push. -/
theorem Counted.expand (h : Counted job taken 0 0 s) (hf : s.frames.find? f ≠ none)
    (hpc : pc < job.program.length) (hnone : s.frames.depth? f pc = none) :
    Counted job taken (1 + (job.table.targets pc).length) 1
      { s with frames := s.frames.modify f (·.visited pc depth) } := by
  obtain ⟨F, hF⟩ := Option.ne_none_iff_exists'.1 hf
  have hnew : F.depths[pc]? = none := by simpa [Frames.depth?, hF] using hnone
  have hcredit := Frames.total_modify (·.visited pc depth) (Frame.credit job) hF
  have hexpansions := Frames.total_modify (·.visited pc depth) (Frame.expansions job) hF
  have hwaiting : (s.frames.modify f (·.visited pc depth)).total Frame.waiting =
      s.frames.total Frame.waiting :=
    Frames.total_modify_eq (·.visited pc depth) (fun _ => rfl) _ _
  have hearned : (F.visited pc depth).credit job =
      F.credit job + (1 + (job.table.targets pc).length) := by
    rw [Frame.credit, Frame.weigh_visited hpc hnew, Frame.credit, Nat.add_assoc]
  have hexpanded : (F.visited pc depth).expansions job = F.expansions job + 1 :=
    Frame.weigh_visited hpc hnew
  have hpaths := h.paths
  have hsteps := h.steps
  refine ⟨?_, ?_⟩
  · simp only [hwaiting]
    omega
  · simp only
    omega

theorem Counted.ranged {low after : Int} (h : Counted job taken spare ahead s) :
    Counted job taken spare ahead
      { s with frames := s.frames.modify f (·.ranged low after) } := by
  have hranged : ∀ w : Frame → Nat, (∀ F, w (F.ranged low after) = w F) →
      (s.frames.modify f (·.ranged low after)).total w = s.frames.total w :=
    fun w hw => Frames.total_modify_eq (·.ranged low after) hw _ _
  refine ⟨?_, ?_⟩
  · rw [hranged _ (fun _ => rfl), hranged _ (fun _ => rfl)]
    exact h.paths
  · rw [hranged _ (fun _ => rfl)]
    exact h.steps

/-- An expansion leaves a step to the path that goes on behind it. -/
theorem counted_expand (depth : Int) (known : Constants) (h : Counted job taken 0 0 s)
    (hf : s.frames.find? f ≠ none) (hpc : pc < job.program.length)
    (hi : job.program.decode pc = .ok i) (hnone : s.frames.depth? f pc = none) :
    Ensures (expand job f pc i depth known) s (fun on s' =>
      match on with
      | none => Counted job taken 0 0 s'
      | some _ => Counted job taken 0 1 s') (fun e s' => Stopped job e s') := by
  refine ensures_expand (fun r hr => (h.expand hf hpc hnone).stopped (checkDepth_reason hr)) ?_
  intro after _
  obtain rfl : i.pc = pc := Program.decode_pc hi
  refine (counted_dispatch (h.expand hf hpc hnone).ranged ?_).mono ?_ (fun _ _ h => h)
  · exact (Frames.Grows.record hnone).open_ hf
  · intro on s' hs'
    cases on with
    | none => exact hs'.mono (Nat.le_refl _) (by omega)
    | some _ => exact hs'

/-- A step that is counted uses up the one that its path had ahead. -/
theorem Counted.count (h : Counted job taken spare (ahead + 1) s) :
    Counted job taken spare ahead { s with steps := s.steps + 1 } := by
  have hsteps := h.steps
  refine ⟨h.paths, ?_⟩
  show s.steps + 1 + ahead ≤ s.frames.total (Frame.expansions job) + taken
  omega

/-- A visit is paid for by the counter that it expands or by the path that it ends. -/
theorem counted_visit (depth : Int) (known : Constants) (h : Counted job taken 0 1 s)
    (hf : s.frames.find? f ≠ none) (hpc : pc < job.program.length) :
    Ensures (visit job f pc depth known) s (fun on s' =>
      match on with
      | none => Counted job taken 0 0 s'
      | some _ => Counted job taken 0 1 s') (fun e s' => Stopped job e s') := by
  refine ensures_visit ?_ ?_ (fun _ _ _ => h.count) ?_
    (fun i hi hnone => counted_expand depth known h.count hf hpc hi hnone)
  · intro hover
    exact ⟨h.count.metered, fun _ _ _ => hover⟩
  · intro r hr
    exact h.count.stopped (decode_reason hr)
  · intro i seen _ _ _
    exact h.count.stopped (by simp [Cause.reason])

/-- A traversal starts with the first path of the main program. -/
theorem counted_start (job : Job) : Counted job 0 0 0 {} := by
  refine ⟨?_, ?_⟩
  · simp [Frames.total, Frame.waiting, Frame.credit]
  · simp

end FlowCheck.Validator
