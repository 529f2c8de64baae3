import FlowCheck.Proofs.Closed
import FlowCheck.Proofs.StepCount
import Mathlib

/-!
# What a traversal decides

A traversal keeps three things at once: what it holds is reached, what is reached from there is held
or still to be followed, and its accounts are in order.  So it comes to its end exactly if the
program is consistent, and then it holds exactly what `Reach` says, in whatever order its paths were
followed.
-/

namespace FlowCheck.Validator

variable {job : Job} {s : State} {f : FrameId} {pc : Nat} {depth : Int}

/-- A traversal between two paths, with so many of them taken. -/
structure Waiting (job : Job) (taken : Nat) (s : State) : Prop where
  justified : s.Justified job
  closed : Closed job s.frames s.worklist none
  counted : Counted job taken 0 0 s

/-- A traversal on a path. -/
structure OnPath (job : Job) (taken : Nat) (f : FrameId) (pc : Nat) (depth : Int)
    (known : Constants) (s : State) : Prop where
  following : Following job f pc depth known s
  closed : Closed job s.frames (⟨f, pc, depth⟩ :: s.worklist) none
  counted : Counted job taken 0 1 s

theorem Waiting.take {taken : Nat} {p : Path} {rest : List Path} (h : Waiting job taken s)
    (hwork : s.worklist = p :: rest) :
    OnPath job (taken + 1) p.frame p.pc p.depth [] { s with worklist := rest } := by
  have hp : p ∈ s.worklist := by simp [hwork]
  obtain ⟨hpoint, hopen⟩ := h.justified.paths p hp
  have hclosed := h.closed
  have hpaths := h.counted.paths
  have hsteps := h.counted.steps
  rw [hwork] at hclosed hpaths
  simp only [List.length_cons] at hpaths
  refine ⟨⟨{ h.justified with paths := fun q hq => ?_ }, hpoint, hopen⟩, hclosed, ⟨?_, ?_⟩⟩
  · exact h.justified.paths q (by simp [hwork, hq])
  · simp only
    omega
  · simp only
    omega

theorem OnPath.leave {taken : Nat} {known : Constants}
    (h : OnPath job taken f pc depth known s) (hpc : job.program.length ≤ pc) :
    Waiting job taken s :=
  ⟨h.following.justified, h.closed.skip (Or.inl hpc),
    h.counted.mono (Nat.le_refl _) (Nat.zero_le _)⟩

theorem OnPath.visit {taken : Nat} {known : Constants} (h : OnPath job taken f pc depth known s)
    (hpc : pc < job.program.length) :
    Ensures (Validator.visit job f pc depth known) s (fun on s' =>
      match on with
      | none => Waiting job taken s'
      | some on => OnPath job taken f (pc + 1 + on.width) on.depth on.constants s')
      (fun e s' => Excused job e ∧ Stopped job e s') := by
  have hjustified := justified_visit h.following hpc
  have hclosed := closed_visit h.closed h.following.point h.following.opened hpc
  have hcounted := counted_visit depth known h.counted h.following.opened hpc
  refine (hjustified.and (hclosed.and hcounted)).mono ?_ (fun e s' hbad => ⟨hbad.1, hbad.2.2⟩)
  rintro on s' ⟨hjustified', hclosed', hcounted'⟩
  cases on with
  | none => exact ⟨hjustified', hclosed', hcounted'⟩
  | some on => exact ⟨hjustified', hclosed', hcounted'⟩

/-- A traversal that comes to its end has an empty worklist; one that does not is excused, and its
accounts are in order. -/
theorem ensures_traverse (job : Job) :
    Ensures (followAll job job.pathBound) {}
      (fun _ s => s.Justified job ∧ Closed job s.frames [] none ∧ s.worklist = [])
      (fun e s => Excused job e ∧ Stopped job e s) := by
  have hstart : Waiting job 0 {} := ⟨justified_start job, closed_start job, counted_start job⟩
  refine (ensures_followAll (I := fun n f pc depth known s => OnPath job n f pc depth known s)
    (J := fun n s => Waiting job n s) (fun n s p rest h hwork => h.take hwork)
    (fun n f pc depth known s hpc h => h.leave hpc)
    (fun n f pc depth known s hpc h => h.visit hpc) job.pathBound hstart).mono ?_ (fun _ _ h => h)
  rintro _ s ⟨m, hs, hdone⟩
  -- the fuel was not used up, since more paths would have been taken than were earned
  have hempty : s.worklist = [] := by
    refine hdone.resolve_right (fun hm => ?_)
    have := hs.counted.taken_lt hs.justified
    omega
  have hclosed := hs.closed
  rw [hempty] at hclosed
  exact ⟨hs.justified, hclosed, hempty⟩

/-- What is known behind a traversal that came to its end. -/
structure Traversed (job : Job) (fs : Frames) : Prop where
  justified : ({ frames := fs, worklist := [] } : State).Justified job
  closed : Closed job fs [] none

theorem traversed_of_traverse (h : traverse job = .ok () s) : Traversed job s.frames := by
  obtain ⟨hjustified, hclosed, -⟩ := (ensures_traverse job).of_ok h
  exact ⟨{ hjustified with paths := by simp }, hclosed⟩

namespace Traversed

variable {fs : Frames}

theorem consistent (h : Traversed job fs) : Consistent job := h.closed.consistent

theorem depth?_eq_some_iff (h : Traversed job fs) :
    fs.depth? f pc = some depth ↔
      pc < job.program.length ∧ ∃ known, Reach job (.point f pc depth known) := by
  constructor
  · intro hat
    obtain ⟨F, hF, hdepth⟩ := Option.bind_eq_some_iff.1 hat
    exact (h.justified.frames f F hF).points pc depth hdepth
  · rintro ⟨hpc, known, hpoint⟩
    exact (h.closed.holds hpoint).resolve_left (Nat.not_le.2 hpc)

theorem net_eq_some_iff (h : Traversed job fs) :
    (∃ F, fs.find? f = some F ∧ F.net = some depth) ↔ Reach job (.ret f depth) := by
  constructor
  · rintro ⟨F, hF, hnet⟩
    exact (h.justified.frames f F hF).net depth hnet
  · intro hret
    exact (h.closed.holds hret).2

theorem opened_iff (h : Traversed job fs) {e : Nat} :
    fs.find? (.entry e) ≠ none ↔ ∃ f pc depth, Reach job (.call f pc depth e) := by
  constructor
  · exact h.justified.opened e
  · rintro ⟨f, pc, depth, hcall⟩
    obtain ⟨i, -, -, F, hF, -⟩ := h.closed.holds hcall
    simp [hF]

theorem hasCall_iff (h : Traversed job fs) {site : CallSite} :
    fs.HasCall site ↔ Reach job (.call site.caller site.pc site.depth site.callee) ∧
      ∃ i, job.program.decode site.pc = .ok i ∧ site.resume = i.next := by
  constructor
  · rintro ⟨⟨F, hF, hsite⟩, -⟩
    obtain ⟨-, hjustified, -⟩ := (h.justified.frames _ F hF).calls site hsite
    exact ⟨hjustified.call, hjustified.resume⟩
  · rintro ⟨hcall, i, hi, hresume⟩
    obtain ⟨j, hj, hhas⟩ := h.closed.holds hcall
    rw [hi] at hj
    cases hj
    rw [← hresume] at hhas
    exact hhas

end Traversed

/-- With a ceiling of at least twice the size of the input, a traversal comes to its end exactly if
the program is consistent, and then its frames hold exactly the facts of `Reach`: the counters that
each frame reaches, with their depths, the depths at its returns, the entries that are called and
the calls. -/
theorem traverse_decides {program : Program} {table : JumpTable} {limit : Amount} {factor : Int}
    (hfactor : 2 ≤ factor) (hjob : job = Job.make program table limit (.whole factor)) :
    ((∃ s, traverse job = .ok () s) ↔ Consistent job) ∧
    ∀ s, traverse job = .ok () s →
      (∀ f pc depth, s.frames.depth? f pc = some depth ↔
        pc < job.program.length ∧ ∃ known, Reach job (.point f pc depth known)) ∧
      (∀ f depth, (∃ F, s.frames.find? f = some F ∧ F.net = some depth) ↔
        Reach job (.ret f depth)) ∧
      (∀ e, s.frames.find? (.entry e) ≠ none ↔ ∃ f pc depth, Reach job (.call f pc depth e)) ∧
      ∀ site, s.frames.HasCall site ↔
        Reach job (.call site.caller site.pc site.depth site.callee) ∧
        ∃ i, job.program.decode site.pc = .ok i ∧ site.resume = i.next := by
  refine ⟨⟨?_, fun hconsistent => ?_⟩, fun s hs => ?_⟩
  · rintro ⟨s, hs⟩
    exact (traversed_of_traverse hs).consistent
  · cases hrun : traverse job with
    | ok _ s => exact ⟨s, rfl⟩
    | error e s =>
        -- a consistent program can only be stopped by the ceiling, which is out of reach
        obtain ⟨hexcused, hstopped⟩ := (ensures_traverse job).of_error hrun
        obtain ⟨r, he, hreason⟩ := hexcused hconsistent
        subst hjob
        exact absurd (hstopped.exceeded r he hreason) (hstopped.metered.not_exceeded hfactor)
  · have htraversed := traversed_of_traverse hs
    exact ⟨fun _ _ _ => htraversed.depth?_eq_some_iff, fun _ _ => htraversed.net_eq_some_iff,
      fun _ => htraversed.opened_iff, fun _ => htraversed.hasCall_iff⟩

namespace Sample

/-- A program that jumps to where its input says, as far as the table allows, and there calls a
subroutine that calls itself unless there is input. -/
def recursive : Job :=
  Job.make
    (Program.ofCode .immediate
      #[0x60, 0x00, 0x35, 0x56, 0x5b, 0x5d, 0x00, 0x00, 0x0a, 0x00,
        0x5c, 0x36, 0x60, 0x13, 0x57, 0x5d, 0x00, 0x00, 0x0a, 0x5b, 0x5e])
    ⟨#[⟨3, 4, by decide, by decide⟩], List.pairwise_singleton _ _⟩ (.whole 4) (.whole 2)

/-- The end of its traversal. -/
def recursiveEnd : State where
  frames := ⟨[
    { id := .main
      depths := (((((({} : Std.HashMap Nat Int).insert 0 0).insert 2 1).insert 3 1).insert 4
        0).insert 5 0).insert 9 0
      high := 1
      calls := [⟨.main, 10, 5, 9, 0⟩] },
    { id := .entry 10
      depths := ((((((({} : Std.HashMap Nat Int).insert 10 0).insert 11 0).insert 12 1).insert 14
        2).insert 15 0).insert 19 0).insert 20 0
      high := 2
      net := some 0
      callers := [⟨.main, 10, 5, 9, 0⟩, ⟨.entry 10, 10, 15, 19, 0⟩]
      calls := [⟨.entry 10, 10, 15, 19, 0⟩] }]⟩
  worklist := []
  steps := 14

set_option maxRecDepth 10000 in
theorem traverse_recursive : traverse recursive = .ok () recursiveEnd := by
  cbv

end Sample

theorem traverse_decides_recursive :
    (2 : Int) ≤ 2 ∧ Consistent Sample.recursive ∧ Reach Sample.recursive (.ret (.entry 10) 0) ∧
      ∃ known, Reach Sample.recursive (.point (.entry 10) 14 2 known) := by
  have hfactor : (2 : Int) ≤ 2 := Int.le_refl 2
  have hjob : Sample.recursive = Job.make _ _ _ (.whole 2) := rfl
  obtain ⟨hiff, hfacts⟩ := traverse_decides hfactor hjob
  obtain ⟨hdepths, hreturns, -⟩ := hfacts _ Sample.traverse_recursive
  have hdepth : Sample.recursiveEnd.frames.depth? (.entry 10) 14 = some 2 := by
    cbv
  exact ⟨hfactor, hiff.1 ⟨_, Sample.traverse_recursive⟩, (hreturns _ _).1 ⟨_, rfl, rfl⟩,
    ((hdepths _ _ _).1 hdepth).2⟩

end FlowCheck.Validator
