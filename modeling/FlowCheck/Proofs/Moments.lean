import FlowCheck.Proofs.Decision
import Mathlib

/-!
# The moments of a traversal

A traversal passes through moments: between two paths, on a path ahead of a step, behind the count of
a step, and halted.  `Proceeds` is what happens between two of them.  It leaves open whether a
traversal above its ceiling stops or goes on, so that a `Trace` without the event `stop` is a
traversal that has no ceiling at all.

* At every moment the steps are linear in the code and the table for each frame opened so far
  (`Trace.steps_le`).
* No frame expands a counter twice (`Trace.expanded`).
* Every trace is short, and every trace can be completed without stopping (`Trace.length_le`,
  `Trace.completes`).
* A traversal is one of its traces (`traced_followAll`).

An expansion counts no step and closes no frame (`kept_expand`), so the bound on the steps holds
within it because it holds in front of it.
-/

namespace FlowCheck.Validator

/-! ## Moments and events -/

/-- Where a traversal stands. -/
inductive Stage where
  | idle
  | ahead (f : FrameId) (pc : Nat) (depth : Int) (known : Constants)
  | counted (f : FrameId) (pc : Nat) (depth : Int) (known : Constants)
  | halted (e : Halt)

structure Moment where
  stage : Stage
  state : State

/-- What happens between two moments. -/
inductive Event where
  /-- A path is taken from the worklist. -/
  | take
  /-- A path leads behind the code. -/
  | leave
  /-- A step is counted. -/
  | count
  /-- The ceiling on the steps is exceeded. -/
  | stop
  /-- The counter is no instruction, or was visited with another depth. -/
  | refuse
  /-- The counter was visited with the same depth. -/
  | rejoin
  /-- The frame visits the counter for the first time. -/
  | expand (f : FrameId) (pc : Nat)

/-- The moment behind an expansion. -/
def Moment.behind (f : FrameId) (pc : Nat) :
    EStateM.Result Halt State (Option Onward) → Moment
  | .ok none s => ⟨.idle, s⟩
  | .ok (some on) s => ⟨.ahead f (pc + 1 + on.width) on.depth on.constants, s⟩
  | .error e s => ⟨.halted e, s⟩

inductive Proceeds (job : Job) : Moment → Event → Moment → Prop
  | take {s : State} {p : Path} {rest : List Path} (hwork : s.worklist = p :: rest) :
      Proceeds job ⟨.idle, s⟩ .take
        ⟨.ahead p.frame p.pc p.depth [], { s with worklist := rest }⟩
  | leave {f : FrameId} {pc : Nat} {depth : Int} {known : Constants} {s : State}
      (hpc : job.program.length ≤ pc) :
      Proceeds job ⟨.ahead f pc depth known, s⟩ .leave ⟨.idle, s⟩
  | count {f pc depth known} {s : State} (hpc : pc < job.program.length) :
      Proceeds job ⟨.ahead f pc depth known, s⟩ .count
        ⟨.counted f pc depth known, { s with steps := s.steps + 1 }⟩
  | stop {f pc depth known s} (hover : (job.ceiling s.frames.size).floor < s.steps) :
      Proceeds job ⟨.counted f pc depth known, s⟩ .stop
        ⟨.halted (.rejected ⟨.stepLimit (job.ceiling s.frames.size), some pc, none⟩), s⟩
  | undecodable {f pc depth known s r} (hr : job.program.decode pc = .error r) :
      Proceeds job ⟨.counted f pc depth known, s⟩ .refuse ⟨.halted (.rejected r), s⟩
  | differ {f pc depth known s i seen} (hi : job.program.decode pc = .ok i)
      (hat : s.frames.depth? f pc = some seen) (hne : seen ≠ depth) :
      Proceeds job ⟨.counted f pc depth known, s⟩ .refuse
        ⟨.halted (.rejected ⟨.depthMismatch depth seen, some i.pc, some i.offender⟩), s⟩
  | rejoin {f pc depth known s i} (hi : job.program.decode pc = .ok i)
      (hat : s.frames.depth? f pc = some depth) :
      Proceeds job ⟨.counted f pc depth known, s⟩ .rejoin ⟨.idle, s⟩
  | expand {f pc depth known s i} (hi : job.program.decode pc = .ok i)
      (hnone : s.frames.depth? f pc = none) :
      Proceeds job ⟨.counted f pc depth known, s⟩ (.expand f pc)
        (Moment.behind f pc ((Validator.expand job f pc i depth known).run s))

/-- The events of a traversal from its start, and the moment that they lead to. -/
inductive Trace (job : Job) : List Event → Moment → Prop
  | start : Trace job [] ⟨.idle, {}⟩
  | step {es e m m'} (h : Trace job es m) (hstep : Proceeds job m e m') : Trace job (es ++ [e]) m'

def Event.expansion? : Event → Option (FrameId × Nat)
  | .expand f pc => some (f, pc)
  | _ => none

/-- The counters expanded, each with its frame. -/
def expansions (es : List Event) : List (FrameId × Nat) :=
  es.filterMap Event.expansion?

/-- A traversal is over when it has halted or no path is left. -/
def Moment.Over (m : Moment) : Prop :=
  (m.stage = .idle ∧ m.state.worklist = []) ∨ ∃ e, m.stage = .halted e

/-! ## Frames are never closed, and an expansion counts no step -/

variable {job : Job} {s s' : State} {f : FrameId} {pc : Nat} {depth : Int} {known : Constants}
  {i : Instruction} {site : CallSite}

/-- What the effects of an instruction leave of a state, however they end. -/
structure Kept (s s' : State) : Prop where
  grows : s.frames.Grows s'.frames
  steps : s'.steps = s.steps

theorem Kept.refl (s : State) : Kept s s := ⟨Frames.Grows.refl _, rfl⟩

theorem Kept.trans {s'' : State} (h : Kept s s') (h' : Kept s' s'') : Kept s s'' :=
  ⟨h.grows.trans h'.grows, h'.steps.trans h.steps⟩

theorem kept_resume {net : Int} {s₀ : State} (h : Kept s₀ s) :
    Ensures (resume job site net) s (fun _ s' => Kept s₀ s') (fun _ s' => Kept s₀ s') :=
  ensures_resume (fun _ => ⟨h.grows, h.steps⟩) (fun _ _ _ => h)

theorem kept_call {target : Nat} {s₀ : State} (h : Kept s₀ s) :
    Ensures (call job f i depth target) s (fun _ s' => Kept s₀ s') (fun _ s' => Kept s₀ s') := by
  have hopened : Ensures (openFrame target) s (fun _ s' => Kept s₀ s') (fun _ s' => Kept s₀ s') :=
    ensures_openFrame (fun _ => h) (fun _ => h.trans ⟨Frames.Grows.add _ _, rfl⟩)
  refine ensures_call rfl (hopened.mono ?_ (fun _ _ h => h))
  intro _ s' hs'
  have hrecorded : Kept s₀ { s' with
      frames := s'.frames.recordCall ⟨f, target, i.pc, i.next, depth⟩ } :=
    hs'.trans ⟨Frames.Grows.recordCall _ _, rfl⟩
  exact ⟨fun _ => hrecorded, fun _ _ => kept_resume hrecorded⟩

theorem kept_returnFrom {s₀ : State} (h : Kept s₀ s) :
    Ensures (returnFrom job f i depth) s (fun _ s' => Kept s₀ s') (fun _ s' => Kept s₀ s') := by
  refine ensures_returnFrom (fun _ _ _ => h) (fun _ _ => h) ?_ (fun _ _ _ _ => h)
    (fun _ _ _ _ _ _ _ _ => h)
  intro F _ hF hnone
  have hreturned : Kept s₀ { s with frames := s.frames.modify f (·.returned depth) } :=
    h.trans ⟨Frames.Grows.returned hF hnone, rfl⟩
  refine ensures_resumeAll (fun _ => ⟨hreturned.grows, hreturned.steps⟩) ?_
  intro _ _ s' _ _ _ hframes hsteps
  refine ⟨?_, hsteps.trans hreturned.steps⟩
  rw [hframes]
  exact hreturned.grows

theorem kept_dispatch (s : State) :
    Ensures (dispatch job f i depth known) s (fun _ s' => Kept s s') (fun _ s' => Kept s s') := by
  refine ensures_dispatch (fun _ _ => Kept.refl s) (fun next _ => ?_)
  have hpushed : Kept s { s with
      worklist := (next.jumps.map (fun t => ⟨f, t, depth⟩)).reverse ++ s.worklist } :=
    ⟨Frames.Grows.refl _, rfl⟩
  refine (Ensures.of_forM (P := fun s' => Kept s s') (fun t _ s' hs' => kept_call hs')
    hpushed).mono ?_ (fun _ _ h => h)
  intro _ s' hs'
  exact ⟨fun _ => kept_returnFrom hs', fun _ => hs'⟩

/-- An expansion has noted its counter, however it ends. -/
theorem kept_expand (job : Job) (i : Instruction) (depth : Int) (known : Constants)
    (hopen : s.frames.find? f ≠ none) (hnone : s.frames.depth? f pc = none) :
    Ensures (expand job f pc i depth known) s
      (fun _ s' => Kept s s' ∧ s'.frames.depth? f pc = some depth)
      (fun _ s' => Kept s s' ∧ s'.frames.depth? f pc = some depth) := by
  refine ensures_expand (fun _ _ => ?_) (fun after _ => ?_)
  · refine ⟨⟨Frames.Grows.visited hnone, rfl⟩, ?_⟩
    simp [Frames.depth?_visited hopen]
  · have hrecorded : Kept s { s with
        frames := s.frames.record f pc depth (depth - i.descriptor.inputs) after } :=
      ⟨Frames.Grows.record hnone, rfl⟩
    have hat : (s.frames.record f pc depth (depth - i.descriptor.inputs) after).depth? f pc =
        some depth := by
      simp [Frames.depth?_record hopen]
    exact (kept_dispatch _).mono (fun _ _ h => ⟨hrecorded.trans h, h.grows.depth? hat⟩)
      (fun _ _ h => ⟨hrecorded.trans h, h.grows.depth? hat⟩)

/-! ## What holds at every moment -/

/-- A traversal behind the count of a step. -/
structure Arrived (job : Job) (taken : Nat) (f : FrameId) (pc : Nat) (depth : Int)
    (known : Constants) (s : State) : Prop where
  within : pc < job.program.length
  following : Following job f pc depth known s
  closed : Closed job s.frames (⟨f, pc, depth⟩ :: s.worklist) none
  counted : Counted job taken 0 0 s

theorem OnPath.count {taken : Nat} (h : OnPath job taken f pc depth known s)
    (hpc : pc < job.program.length) :
    Arrived job taken f pc depth known { s with steps := s.steps + 1 } :=
  ⟨hpc, h.following.count, h.closed, h.counted.count⟩

theorem Arrived.rejoin {taken : Nat} (h : Arrived job taken f pc depth known s)
    (hat : s.frames.depth? f pc = some depth) : Waiting job taken s :=
  ⟨h.following.justified, h.closed.skip (Or.inr hat), h.counted⟩

theorem Arrived.expand {taken : Nat} (h : Arrived job taken f pc depth known s)
    (hi : job.program.decode pc = .ok i) (hnone : s.frames.depth? f pc = none) :
    Ensures (Validator.expand job f pc i depth known) s (fun on s' =>
      match on with
      | none => Waiting job taken s'
      | some on => OnPath job taken f (pc + 1 + on.width) on.depth on.constants s')
      (fun e s' => Stopped job e s') := by
  have hjustified := justified_expand h.following h.within hi
  have hclosed := closed_expand h.closed h.following.point h.following.opened h.within hi hnone
  have hcounted := counted_expand depth known h.counted h.following.opened h.within hi hnone
  refine (hjustified.and (hclosed.and hcounted)).mono ?_ (fun _ _ hbad => hbad.2.2)
  rintro on s' ⟨hjustified', hclosed', hcounted'⟩
  cases on with
  | none => exact ⟨hjustified', hclosed', hcounted'⟩
  | some on => exact ⟨hjustified', hclosed', hcounted'⟩

/-- More events than a trace can ever have. -/
def Job.traceBound (job : Job) : Nat :=
  4 * ((2 * job.program.length + job.table.size + 1) * (job.program.length + 1))

/-- Paths and steps together are bounded by the size of the input alone. -/
theorem Counted.le_traceBound {taken spare ahead : Nat} (h : Counted job taken spare ahead s)
    (hs : s.Justified job) : 2 * (taken + s.steps) ≤ job.traceBound := by
  obtain ⟨size, hsize⟩ : ∃ size, size = 2 * job.program.length + job.table.size + 1 := ⟨_, rfl⟩
  have hframes := hs.frames_le
  have hsteps : s.steps ≤ size * (job.program.length + 1) := by
    calc s.steps ≤ s.frames.size * size := hsize ▸ h.metered.steps_le
      _ ≤ (job.program.length + 1) * size := Nat.mul_le_mul_right _ hframes
      _ = size * (job.program.length + 1) := Nat.mul_comm _ _
  have htaken : taken ≤ size * (job.program.length + 1) := by
    have hpaths := h.paths
    have hcredit := Frames.total_le (fun F (_ : F ∈ s.frames.toList) => F.credit_le job)
    calc taken ≤ s.frames.size * (job.program.length + job.table.size + 1) := by omega
      _ ≤ (job.program.length + 1) * size := Nat.mul_le_mul hframes (by omega)
      _ = size * (job.program.length + 1) := Nat.mul_comm _ _
  rw [Job.traceBound, ← hsize]
  omega

theorem Arrived.events_le {events taken : Nat} (h : Arrived job taken f pc depth known s)
    (hevents : events + 2 ≤ 2 * (taken + s.steps)) : events + 1 ≤ job.traceBound := by
  have hbound := h.counted.le_traceBound h.following.justified
  omega

/-- The invariant of a trace with so many events, `taken` of which took a path.  A path has two events
of its own, its start and its end, and so has a step, its count and what the counter meets. -/
def Moment.Sound (job : Job) (events taken : Nat) (m : Moment) : Prop :=
  match m.stage with
  | .idle => Waiting job taken m.state ∧ events ≤ 2 * (taken + m.state.steps)
  | .ahead f pc depth known =>
      OnPath job taken f pc depth known m.state ∧ events + 1 ≤ 2 * (taken + m.state.steps)
  | .counted f pc depth known =>
      Arrived job taken f pc depth known m.state ∧ events + 2 ≤ 2 * (taken + m.state.steps)
  | .halted _ => Metered job m.state ∧ events ≤ job.traceBound

theorem Moment.Sound.metered {events taken : Nat} {m : Moment} (h : m.Sound job events taken) :
    Metered job m.state := by
  obtain ⟨stage, s⟩ := m
  cases stage with
  | idle => exact h.1.counted.metered
  | ahead f pc depth known => exact h.1.counted.metered
  | counted f pc depth known => exact h.1.counted.metered
  | halted e => exact h.1

theorem Moment.Sound.le_traceBound {events taken : Nat} {m : Moment}
    (h : m.Sound job events taken) : events ≤ job.traceBound := by
  obtain ⟨stage, s⟩ := m
  cases stage with
  | idle => exact Nat.le_trans h.2 (h.1.counted.le_traceBound h.1.justified)
  | ahead f pc depth known =>
      have hbound := h.1.counted.le_traceBound h.1.following.justified
      have hevents := h.2
      dsimp only at hevents hbound
      omega
  | counted f pc depth known =>
      have hbound := h.1.counted.le_traceBound h.1.following.justified
      have hevents := h.2
      dsimp only at hevents hbound
      omega
  | halted e => exact h.2

/-- What every event keeps. -/
theorem Proceeds.sound {m m' : Moment} {e : Event} {events taken : Nat}
    (hstep : Proceeds job m e m') (h : m.Sound job events taken) :
    ∃ taken', m'.Sound job (events + 1) taken' := by
  cases hstep with
  | take hwork =>
      obtain ⟨hwaiting, hevents⟩ := h
      refine ⟨taken + 1, hwaiting.take hwork, ?_⟩
      dsimp only at hevents ⊢
      omega
  | leave hpc =>
      obtain ⟨hpath, hevents⟩ := h
      exact ⟨taken, hpath.leave hpc, hevents⟩
  | count hpc =>
      obtain ⟨hpath, hevents⟩ := h
      refine ⟨taken, hpath.count hpc, ?_⟩
      dsimp only at hevents ⊢
      omega
  | rejoin hi hat =>
      obtain ⟨harrived, hevents⟩ := h
      refine ⟨taken, harrived.rejoin hat, ?_⟩
      dsimp only at hevents ⊢
      omega
  | stop hover =>
      obtain ⟨harrived, hevents⟩ := h
      exact ⟨taken, harrived.counted.metered, harrived.events_le hevents⟩
  | undecodable hr =>
      obtain ⟨harrived, hevents⟩ := h
      exact ⟨taken, harrived.counted.metered, harrived.events_le hevents⟩
  | differ hi hat hne =>
      obtain ⟨harrived, hevents⟩ := h
      exact ⟨taken, harrived.counted.metered, harrived.events_le hevents⟩
  | @expand f pc depth known s i hi hnone =>
      obtain ⟨harrived, hevents⟩ := h
      have hexpand := harrived.expand hi hnone
      have hkept := kept_expand job i depth known harrived.following.opened hnone
      dsimp only at hevents
      cases hrun : (Validator.expand job f pc i depth known).run s with
      | error e s' =>
          exact ⟨taken, (hexpand.of_error hrun).metered, harrived.events_le hevents⟩
      | ok on s' =>
          have hsteps : s'.steps = s.steps := (hkept.of_ok hrun).1.steps
          have hgoes := hexpand.of_ok hrun
          cases on with
          | none =>
              refine ⟨taken, hgoes, ?_⟩
              dsimp only [Moment.behind]
              omega
          | some on =>
              refine ⟨taken, hgoes, ?_⟩
              dsimp only [Moment.behind]
              omega

theorem Trace.sound {es : List Event} {m : Moment} (h : Trace job es m) :
    ∃ taken, m.Sound job es.length taken := by
  induction h with
  | start =>
      exact ⟨0, ⟨justified_start job, closed_start job, counted_start job⟩, Nat.zero_le _⟩
  | step h hstep ih =>
      obtain ⟨taken, hsound⟩ := ih
      rw [List.length_append, List.length_singleton]
      exact hstep.sound hsound

/-- At every moment the steps are linear in the code and the table, for each frame opened so far. -/
theorem Trace.steps_le {es : List Event} {m : Moment} (h : Trace job es m) :
    m.state.steps ≤
      (2 * job.program.length + job.table.size + 1) * m.state.frames.size := by
  obtain ⟨taken, hsound⟩ := h.sound
  rw [Nat.mul_comm]
  exact hsound.metered.steps_le

theorem Trace.length_le {es : List Event} {m : Moment} (h : Trace job es m) :
    es.length ≤ job.traceBound := by
  obtain ⟨taken, hsound⟩ := h.sound
  exact hsound.le_traceBound

/-! ## Expansions -/

theorem expansions_concat (es : List Event) (e : Event) :
    expansions (es ++ [e]) = expansions es ++ e.expansion?.toList := by
  cases e <;> simp [expansions, Event.expansion?]

/-- What holds however an expansion ends holds of the moment behind it. -/
theorem Moment.state_behind (f : FrameId) (pc : Nat) {P : State → Prop}
    {m : Walk (Option Onward)} (h : Ensures m s (fun _ s' => P s') (fun _ s' => P s')) :
    P (Moment.behind f pc (m.run s)).state := by
  unfold Ensures at h
  cases hrun : m.run s with
  | error e s' =>
      rw [hrun] at h
      exact h
  | ok on s' =>
      rw [hrun] at h
      cases on with
      | none => exact h
      | some on => exact h

/-- Frames are never closed and keep their counters; a counter that is expanded is new, and noted. -/
theorem Proceeds.grows {m m' : Moment} {e : Event} {events taken : Nat}
    (hstep : Proceeds job m e m') (h : m.Sound job events taken) :
    m.state.frames.Grows m'.state.frames ∧
      ∀ f pc, e.expansion? = some (f, pc) →
        m.state.frames.depth? f pc = none ∧ m'.state.frames.depth? f pc ≠ none := by
  cases hstep with
  | @expand f pc depth known s i hi hnone =>
      have hkept := Moment.state_behind f pc
        (kept_expand job i depth known h.1.following.opened hnone)
      refine ⟨hkept.1.grows, ?_⟩
      rintro g pc' heq
      obtain ⟨rfl, rfl⟩ : f = g ∧ pc = pc' := by simpa [Event.expansion?] using heq
      refine ⟨hnone, ?_⟩
      rw [hkept.2]
      exact Option.some_ne_none _
  | _ => exact ⟨Frames.Grows.refl _, by simp [Event.expansion?]⟩

/-- Whatever was expanded is noted, so nothing is expanded twice. -/
theorem Trace.expanded {es : List Event} {m : Moment} (h : Trace job es m) :
    (expansions es).Nodup ∧
      ∀ f pc, (f, pc) ∈ expansions es → m.state.frames.depth? f pc ≠ none := by
  induction h with
  | start => exact ⟨List.nodup_nil, by simp [expansions]⟩
  | @step es e m m' h hstep ih =>
      obtain ⟨taken, hsound⟩ := h.sound
      obtain ⟨hgrows, hnew⟩ := hstep.grows hsound
      obtain ⟨hnodup, hnoted⟩ := ih
      have hkeep : ∀ f pc, (f, pc) ∈ expansions es → m'.state.frames.depth? f pc ≠ none := by
        intro f pc hmem
        obtain ⟨depth, hat⟩ := Option.ne_none_iff_exists'.1 (hnoted f pc hmem)
        rw [hgrows.depth? hat]
        exact Option.some_ne_none _
      rw [expansions_concat]
      cases hexp : e.expansion? with
      | none => simpa [hexp] using ⟨hnodup, hkeep⟩
      | some x =>
          obtain ⟨f, pc⟩ := x
          obtain ⟨hfresh, hat⟩ := hnew f pc hexp
          refine ⟨?_, ?_⟩
          · rw [Option.toList_some, List.nodup_append]
            refine ⟨hnodup, List.nodup_singleton _, ?_⟩
            rintro ⟨g, pc'⟩ hmem y hy rfl
            obtain ⟨rfl, rfl⟩ : g = f ∧ pc' = pc := by simpa using hy
            exact hnoted g pc' hmem hfresh
          · intro g pc' hmem
            rcases List.mem_append.1 hmem with hmem | hmem
            · exact hkeep g pc' hmem
            · obtain ⟨rfl, rfl⟩ : g = f ∧ pc' = pc := by simpa using hmem
              exact hat

/-! ## The end of a traversal -/

/-- Unless it is over, a traversal goes on, and it need not stop for its ceiling. -/
theorem Moment.proceeds (job : Job) {m : Moment} (h : ¬ m.Over) :
    ∃ e m', Proceeds job m e m' ∧ e ≠ .stop := by
  obtain ⟨stage, s⟩ := m
  cases stage with
  | idle =>
      cases hwork : s.worklist with
      | nil => exact absurd (Or.inl ⟨rfl, hwork⟩) h
      | cons p rest => exact ⟨_, _, .take hwork, by simp⟩
  | ahead f pc depth known =>
      by_cases hpc : pc < job.program.length
      · exact ⟨_, _, .count hpc, by simp⟩
      · exact ⟨_, _, .leave (Nat.le_of_not_lt hpc), by simp⟩
  | counted f pc depth known =>
      cases hi : job.program.decode pc with
      | error r => exact ⟨_, _, .undecodable hi, by simp⟩
      | ok i =>
          cases hat : s.frames.depth? f pc with
          | none => exact ⟨_, _, .expand hi hat, by simp⟩
          | some seen =>
              by_cases heq : seen = depth
              · subst heq
                exact ⟨_, _, .rejoin hi hat, by simp⟩
              · exact ⟨_, _, .differ hi hat heq, by simp⟩
  | halted e => exact absurd (Or.inr ⟨e, rfl⟩) h

/-- Every trace can be completed without regard to the ceiling. -/
theorem Trace.completes {es : List Event} {m : Moment} (h : Trace job es m) :
    ∃ es' m', Trace job (es ++ es') m' ∧ .stop ∉ es' ∧ m'.Over := by
  -- a trace that is not over can be prolonged, which its bound allows only so often
  obtain ⟨room, hroom⟩ : ∃ room, room = job.traceBound - es.length := ⟨_, rfl⟩
  induction room generalizing es m with
  | zero =>
      by_cases hover : m.Over
      · exact ⟨[], m, by simpa using h, by simp, hover⟩
      · obtain ⟨e, m', hstep, -⟩ := m.proceeds job hover
        have hlength := (h.step hstep).length_le
        rw [List.length_append, List.length_singleton] at hlength
        omega
  | succ room ih =>
      by_cases hover : m.Over
      · exact ⟨[], m, by simpa using h, by simp, hover⟩
      · obtain ⟨e, m', hstep, hstop⟩ := m.proceeds job hover
        have hlength : room = job.traceBound - (es ++ [e]).length := by
          rw [List.length_append, List.length_singleton]
          omega
        obtain ⟨es', m'', htrace, hrest, hover'⟩ := ih (h.step hstep) hlength
        refine ⟨e :: es', m'', by simpa using htrace, ?_, hover'⟩
        rw [List.mem_cons, not_or]
        exact ⟨fun heq => hstop heq.symm, hrest⟩

/-- A traversal is a trace, with the ceiling as a reason to stop. -/
theorem traced_followAll (job : Job) (fuel : Nat) :
    Ensures (followAll job fuel) {} (fun _ s => ∃ es, Trace job es ⟨.idle, s⟩)
      (fun e s => ∃ es, Trace job es ⟨.halted e, s⟩) := by
  have hvisit : ∀ f pc depth known (s : State), pc < job.program.length →
      (∃ es, Trace job es ⟨.ahead f pc depth known, s⟩) →
      Ensures (visit job f pc depth known) s (fun on s' =>
        match on with
        | none => ∃ es, Trace job es ⟨.idle, s'⟩
        | some on =>
            ∃ es, Trace job es ⟨.ahead f (pc + 1 + on.width) on.depth on.constants, s'⟩)
        (fun e s' => ∃ es, Trace job es ⟨.halted e, s'⟩) := by
    rintro f pc depth known s hpc ⟨es, h⟩
    have hcounted := h.step (.count hpc)
    refine ensures_visit (fun hover => ⟨_, hcounted.step (.stop hover)⟩)
      (fun r hr => ⟨_, hcounted.step (.undecodable hr)⟩)
      (fun i hi hat => ⟨_, hcounted.step (.rejoin hi hat)⟩)
      (fun i seen hi hat hne => ⟨_, hcounted.step (.differ hi hat hne)⟩) ?_
    intro i hi hnone
    have hexpanded := hcounted.step (.expand hi hnone)
    unfold Ensures
    cases hrun : (expand job f pc i depth known).run { s with steps := s.steps + 1 } with
    | error e s' =>
        rw [hrun] at hexpanded
        exact ⟨_, hexpanded⟩
    | ok on s' =>
        rw [hrun] at hexpanded
        cases on with
        | none => exact ⟨_, hexpanded⟩
        | some on => exact ⟨_, hexpanded⟩
  refine (ensures_followAll (I := fun _ f pc depth known s =>
      ∃ es, Trace job es ⟨.ahead f pc depth known, s⟩)
    (J := fun _ s => ∃ es, Trace job es ⟨.idle, s⟩) ?_ ?_
    (fun _ f pc depth known s hpc h => hvisit f pc depth known s hpc h) fuel (n := 0)
    ⟨[], .start⟩).mono ?_ (fun _ _ h => h)
  · rintro _ s p rest ⟨es, h⟩ hwork
    exact ⟨_, h.step (.take hwork)⟩
  · rintro _ f pc depth known s hpc ⟨es, h⟩
    exact ⟨_, h.step (.leave hpc)⟩
  · rintro _ s ⟨_, htrace, _⟩
    exact htrace

/-! ## Verdicts -/

/-- A call whose callee needs more than it has is refused where it stands. -/
theorem Needs.settle_error {limit : Amount} {id : FrameId} {n : Needs} {r : Rejection}
    (h : n.settle limit id site = .error r) :
    ∃ cause : Cause, r = ⟨cause, some site.pc, some (.opcode .jumpsub)⟩ ∧
      cause.reason = .stackUnderflow := by
  simp only [Needs.settle] at h
  split at h
  · cases h
  · split at h
    · cases h
      exact ⟨_, rfl, rfl⟩
    · cases h

theorem Needs.settle_callers_error {limit : Amount} {id : FrameId} {r : Rejection}
    {callers : List CallSite} {n : Needs}
    (h : callers.foldlM (Needs.settle limit id) n = .error r) :
    ∃ site ∈ callers, ∃ cause : Cause, r = ⟨cause, some site.pc, some (.opcode .jumpsub)⟩ ∧
      cause.reason = .stackUnderflow := by
  induction callers generalizing n with
  | nil => cases h
  | cons site rest ih =>
      rw [List.foldlM_cons] at h
      cases hsettle : n.settle limit id site with
      | ok n' =>
          rw [hsettle] at h
          obtain ⟨site', hmem, hrefused⟩ := ih h
          exact ⟨site', List.mem_cons_of_mem _ hmem, hrefused⟩
      | error r' =>
          rw [hsettle] at h
          cases h
          exact ⟨site, List.mem_cons_self .., Needs.settle_error hsettle⟩

/-- Pushing needs to callers refuses recorded calls that have too few items, and nothing else. -/
theorem Needs.settleAll_error {limit : Amount} {fs : Frames} {r : Rejection} {fuel : Nat}
    {n : Needs} (h : n.settleAll limit fs fuel = .error r) :
    ∃ id F, fs.find? id = some F ∧ ∃ site ∈ F.callers, ∃ cause : Cause,
      r = ⟨cause, some site.pc, some (.opcode .jumpsub)⟩ ∧ cause.reason = .stackUnderflow := by
  induction fuel generalizing n with
  | zero => cases h
  | succ fuel ih =>
      rw [Needs.settleAll] at h
      split at h
      · cases h
      · rename_i id rest hpending
        dsimp only at h
        split at h
        · rename_i hcallers
          cases h
          obtain ⟨site, hsite, hrefused⟩ := Needs.settle_callers_error hcallers
          cases hF : fs.find? id with
          | none => simp [hF] at hsite
          | some F => exact ⟨id, F, hF, site, by simpa [hF] using hsite, hrefused⟩
        · exact ih h

/-- The check of the call sites refuses a recorded call with too few items, or the call that leads
to a main program that rises too high. -/
theorem summarise_error {limit : Amount} {fs : Frames} {r : Rejection}
    (h : summarise limit fs = .error r) :
    (∃ id F, fs.find? id = some F ∧ ∃ site ∈ F.callers, ∃ cause : Cause,
      r = ⟨cause, some site.pc, some (.opcode .jumpsub)⟩ ∧ cause.reason = .stackUnderflow) ∨
    ∃ top, top = ((peaks fs)[FrameId.main]?).getD ⟨0, none⟩ ∧ limit.floor < top.depth ∧
      r = ⟨.callChain top.depth limit, top.site.map Int.ofNat, some (.opcode .jumpsub)⟩ := by
  unfold summarise at h
  cases hneeds : needs limit fs with
  | error r' =>
      rw [hneeds] at h
      cases h
      unfold needs at hneeds
      dsimp only at hneeds
      cases hsettle : Needs.settleAll limit fs (fs.size * (limit.floor.toNat + 1) + 1)
          { need := fs.toList.foldl (fun m f => m.insert f.id (-f.low)) {}
            pending := fs.ids.reverse } with
      | ok n =>
          rw [hsettle] at hneeds
          cases hneeds
      | error r' =>
          rw [hsettle] at hneeds
          cases hneeds
          exact Or.inl (Needs.settleAll_error hsettle)
  | ok need =>
      rw [hneeds] at h
      dsimp only at h
      split at h
      · rename_i hover
        cases h
        exact Or.inr ⟨_, rfl, hover, rfl⟩
      · cases h

/-- The check of the call sites does not count steps. -/
theorem summarise_reason {limit : Amount} {fs : Frames} {r : Rejection}
    (h : summarise limit fs = .error r) : r.cause.reason ≠ .stepLimitExceeded := by
  rcases summarise_error h with ⟨-, -, -, -, -, cause, rfl, hcause⟩ | ⟨top, -, -, rfl⟩
  · rw [hcause]
    simp
  · simp [Cause.reason]

/-- A report is about the end of the traversal. -/
theorem report_of_validate {report : Report} (h : validate job = .ok report) :
    ∃ es m, Trace job es m ∧ report.steps = m.state.steps ∧
      report.frames = m.state.frames.size := by
  have htraced := traced_followAll job job.pathBound
  unfold validate at h
  cases hrun : traverse job with
  | ok _ s =>
      obtain ⟨es, htrace⟩ := htraced.of_ok hrun
      rw [hrun] at h
      dsimp only at h
      split at h <;> cases h <;> exact ⟨es, _, htrace, rfl, rfl⟩
  | error e s =>
      obtain ⟨es, htrace⟩ := htraced.of_error hrun
      rw [hrun] at h
      cases e with
      | uncountable => cases h
      | rejected r =>
          cases h
          exact ⟨es, _, htrace, rfl, rfl⟩

/-- With a ceiling of at least twice the size of the input, no report blames the ceiling. -/
theorem reason_of_validate {program : Program} {table : JumpTable} {limit : Amount} {factor : Int}
    {report : Report} {r : Rejection} (hfactor : 2 ≤ factor)
    (h : validate (Job.make program table limit (.whole factor)) = .ok report)
    (hr : report.verdict = .rejected r) : r.cause.reason ≠ .stepLimitExceeded := by
  unfold validate at h
  cases hrun : traverse (Job.make program table limit (.whole factor)) with
  | ok _ s =>
      rw [hrun] at h
      dsimp only at h
      split at h
      · rename_i hsummarise
        cases h
        cases hr
        exact summarise_reason hsummarise
      · cases h
        cases hr
  | error e s =>
      obtain ⟨-, hstopped⟩ := (ensures_traverse _).of_error hrun
      rw [hrun] at h
      cases e with
      | uncountable => cases h
      | rejected r' =>
          cases h
          cases hr
          intro hreason
          exact hstopped.metered.not_exceeded hfactor (hstopped.exceeded r rfl hreason)

/-- At every moment of a traversal the steps are at most linear in the code and the table for each
frame opened so far, and no frame has expanded a counter twice.  So a traversal ends even without its
ceiling: every trace is bounded by the size of the input, and every trace can be completed without
stopping.  The traversal itself is such a trace, with no path left if it is not refused; its report
keeps the bound, and a ceiling of twice the size of the input never refuses a program. -/
theorem traversal_linear (job : Job) :
    (∀ es m, Trace job es m →
      m.state.steps ≤
        (2 * job.program.length + job.table.size + 1) * m.state.frames.size ∧
      (expansions es).Nodup ∧
      (∀ f pc, (f, pc) ∈ expansions es → m.state.frames.depth? f pc ≠ none) ∧
      es.length ≤ job.traceBound ∧
      ∃ es' m', Trace job (es ++ es') m' ∧ .stop ∉ es' ∧ m'.Over) ∧
    (match traverse job with
      | .ok _ s => s.worklist = [] ∧ ∃ es, Trace job es ⟨.idle, s⟩
      | .error e s => ∃ es, Trace job es ⟨.halted e, s⟩) ∧
    (∀ report, validate job = .ok report →
      report.steps ≤ (2 * job.program.length + job.table.size + 1) * report.frames) ∧
    ∀ program table limit (factor : Int), 2 ≤ factor →
      job = Job.make program table limit (.whole factor) →
      ∀ report r, validate job = .ok report → report.verdict = .rejected r →
        r.cause.reason ≠ .stepLimitExceeded := by
  refine ⟨?_, ?_, ?_, ?_⟩
  · intro es m h
    exact ⟨h.steps_le, h.expanded.1, h.expanded.2, h.length_le, h.completes⟩
  · have htraced := (ensures_traverse job).and (traced_followAll job job.pathBound)
    cases hrun : traverse job with
    | ok _ s =>
        obtain ⟨⟨-, -, hempty⟩, htrace⟩ := htraced.of_ok hrun
        exact ⟨hempty, htrace⟩
    | error e s => exact (htraced.of_error hrun).2
  · intro report h
    obtain ⟨es, m, htrace, hsteps, hframes⟩ := report_of_validate h
    rw [hsteps, hframes]
    exact htrace.steps_le
  · rintro program table limit factor hfactor rfl report r h hr
    exact reason_of_validate hfactor h hr

namespace Sample

/-- A loop that leaves one item more on the stack each time. -/
def leaking : Job :=
  Job.make (Program.ofCode .immediate #[0x5b, 0x60, 0x00, 0x60, 0x00, 0x56]) JumpTable.empty
    (.whole 4) (.whole 2)

theorem validate_leaking :
    validate leaking =
      .ok ⟨.rejected ⟨.depthMismatch 1 0, some 0, some (.opcode .jumpdest)⟩, [], 5, 1⟩ := by
  cbv

end Sample

theorem traversal_linear_samples :
    (∃ es, Trace Sample.recursive es ⟨.idle, Sample.recursiveEnd⟩ ∧ (expansions es).Nodup ∧
      Sample.recursiveEnd.steps ≤
        (2 * Sample.recursive.program.length + Sample.recursive.table.size + 1) *
          Sample.recursiveEnd.frames.size) ∧
    (2 : Int) ≤ 2 ∧
    ∃ report r, validate Sample.leaking = .ok report ∧ report.verdict = .rejected r ∧
      r.cause.reason ≠ .stepLimitExceeded := by
  obtain ⟨htraces, htraverse, -⟩ := traversal_linear Sample.recursive
  rw [Sample.traverse_recursive] at htraverse
  obtain ⟨-, es, htrace⟩ := htraverse
  obtain ⟨hsteps, hnodup, -⟩ := htraces es _ htrace
  have hfactor : (2 : Int) ≤ 2 := Int.le_refl 2
  obtain ⟨-, -, -, hverdict⟩ := traversal_linear Sample.leaking
  have hreason := hverdict _ _ _ 2 hfactor rfl _ _ Sample.validate_leaking rfl
  exact ⟨⟨es, htrace, hnodup, hsteps⟩, hfactor, _, _, Sample.validate_leaking, rfl, hreason⟩

end FlowCheck.Validator
