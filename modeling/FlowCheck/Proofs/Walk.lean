import FlowCheck.Proofs.Ensures
import FlowCheck.Proofs.Frames
import FlowCheck.Proofs.Reach

/-!
# The parts of a traversal

One rule for each operation of the traversal says what is left to show about the state behind it,
however it ends.  The rules of `follow` and `followAll` are the two inductions of the development:
what one visit keeps, a whole traversal keeps.
-/

namespace FlowCheck.Validator

variable {job : Job} {s : State} {f : FrameId} {pc : Nat} {depth : Int} {known : Constants}
  {i : Instruction} {site : CallSite} {α : Type}

/-- The depth with which a frame has visited a counter. -/
def Frames.depth? (fs : Frames) (f : FrameId) (pc : Nat) : Option Int :=
  (fs.find? f).bind (fun F => F.depths[pc]?)

namespace Frame

/-- The frame with a counter visited with a depth. -/
def visited (F : Frame) (pc : Nat) (depth : Int) : Frame :=
  { F with depths := F.depths.insert pc depth }

/-- The frame with the dip and the new depth of an instruction taken into account. -/
def ranged (F : Frame) (low after : Int) : Frame :=
  { F with low := min F.low low, high := max F.high after }

/-- The frame with one more call of it. -/
def withCaller (F : Frame) (site : CallSite) : Frame :=
  { F with callers := F.callers ++ [site] }

/-- The frame with one more call made by it. -/
def withCall (F : Frame) (site : CallSite) : Frame :=
  { F with calls := F.calls ++ [site] }

/-- The frame with the depth at its returns known. -/
def returned (F : Frame) (depth : Int) : Frame :=
  { F with net := some depth }

end Frame

/-- The frames behind a visit: the depths of the instruction are noted. -/
def Frames.record (fs : Frames) (f : FrameId) (pc : Nat) (depth low after : Int) : Frames :=
  (fs.modify f (·.visited pc depth)).modify f (·.ranged low after)

/-- The frames behind a call: it is noted on both sides. -/
def Frames.recordCall (fs : Frames) (site : CallSite) : Frames :=
  (fs.modify (.entry site.callee) (·.withCaller site)).modify site.caller (·.withCall site)

/-- The path that resumes behind a call. -/
def CallSite.resumption (site : CallSite) (net : Int) : Path :=
  ⟨site.caller, site.resume, site.depth + net⟩

/-! ## Operations -/

section

variable {post : α → State → Prop} {bad : Halt → State → Prop}

theorem ensures_require {check : Except Rejection α} (hok : ∀ a, check = .ok a → post a s)
    (hbad : ∀ r, check = .error r → bad (.rejected r) s) : Ensures (require check) s post bad := by
  cases check with
  | ok a => exact hok a rfl
  | error r => exact hbad r rfl

theorem ensures_refuse {cause : Cause}
    (hbad : bad (.rejected ⟨cause, some i.pc, some i.offender⟩) s) :
    Ensures (require (refuse i cause)) s post bad := hbad

end

section

variable {post : Unit → State → Prop} {bad : Halt → State → Prop}

theorem ensures_pushPath {p : Path} (h : post () { s with worklist := p :: s.worklist }) :
    Ensures (pushPath p) s post bad := h

/-- Several paths are pushed one after the other, so the last one is followed first. -/
theorem ensures_pushPaths {g : Nat → Path} {ts : List Nat}
    (h : post () { s with worklist := (ts.map g).reverse ++ s.worklist }) :
    Ensures (ts.forM (fun t => pushPath (g t))) s post bad := by
  induction ts generalizing s with
  | nil => exact h
  | cons t rest ih =>
      change Ensures (pushPath (g t) >>= fun _ => rest.forM (fun t => pushPath (g t))) s _ _
      refine Ensures.of_bind (ensures_pushPath (ih ?_))
      simpa using h

theorem ensures_resume {net : Int}
    (hfits : job.Fits site.caller (site.depth + net) →
      post () { s with worklist := site.resumption net :: s.worklist })
    (hbad : ∀ r : Rejection, r.cause.reason ≠ .stepLimitExceeded →
      ¬ job.Fits site.caller (site.depth + net) → bad (.rejected r) s) :
    Ensures (resume job site net) s post bad := by
  unfold resume
  by_cases hbelow : site.caller = .main ∧ site.depth + net < 0
  · simp only [hbelow, and_self, if_true]
    refine hbad ⟨_, _, _⟩ (by simp [Cause.reason]) (fun hfit => ?_)
    have := hfit.2 hbelow.1
    omega
  · simp only [hbelow, if_false]
    by_cases hover : job.limit.floor < site.depth + net
    · simp only [hover, if_true]
      refine hbad ⟨_, _, _⟩ (by simp [Cause.reason]) (fun hfit => ?_)
      have := hfit.1
      omega
    · simp only [hover, if_false]
      refine hfits ⟨by omega, fun hmain => ?_⟩
      have := not_and.1 hbelow hmain
      omega

/-- All callers of a frame are resumed, or one of them does not fit. -/
theorem ensures_resumeAll {sites : List CallSite} {net : Int}
    (hfits : (∀ site ∈ sites, job.Fits site.caller (site.depth + net)) →
      post () { s with worklist := (sites.map (fun site => site.resumption net)).reverse ++
        s.worklist })
    (hbad : ∀ (r : Rejection) (site : CallSite) (s' : State),
      r.cause.reason ≠ .stepLimitExceeded → site ∈ sites →
        ¬ job.Fits site.caller (site.depth + net) → s'.frames = s.frames → s'.steps = s.steps →
          bad (.rejected r) s') :
    Ensures (sites.forM (fun site => resume job site net)) s post bad := by
  induction sites generalizing s with
  | nil => exact hfits (by simp)
  | cons site rest ih =>
      change Ensures (resume job site net >>= fun _ =>
        rest.forM (fun site => resume job site net)) s _ _
      refine Ensures.of_bind (ensures_resume ?_ ?_)
      · intro hsite
        refine ih (fun hrest => ?_) ?_
        · have hall : ∀ site' ∈ site :: rest, job.Fits site'.caller (site'.depth + net) := by
            intro site' hmem
            rcases List.mem_cons.1 hmem with rfl | hmem
            · exact hsite
            · exact hrest site' hmem
          simpa using hfits hall
        · intro r site' s' hr hmem hnot hframes hsteps
          exact hbad r site' s' hr (List.mem_cons_of_mem _ hmem) hnot hframes hsteps
      · intro r hr hnot
        exact hbad r site s hr (List.mem_cons_self ..) hnot rfl rfl

theorem ensures_openFrame {target : Nat}
    (hopen : s.frames.find? (.entry target) ≠ none → post () s)
    (hnew : s.frames.find? (.entry target) = none →
      post () { s with
        frames := s.frames.add { id := .entry target }
        worklist := ⟨.entry target, target, 0⟩ :: s.worklist }) :
    Ensures (openFrame target) s post bad := by
  unfold openFrame
  refine Ensures.of_bind (Ensures.of_get ?_)
  cases hfind : s.frames.find? (.entry target) with
  | none =>
      simp only
      exact Ensures.of_set (hnew hfind)
  | some F =>
      simp only
      exact Ensures.of_pure (hopen (by simp [hfind]))

/-- A call opens the callee, is recorded on both sides, and is resumed if the callee is known to
return. -/
theorem ensures_call {target : Nat} (hsite : site = ⟨f, target, i.pc, i.next, depth⟩)
    (h : Ensures (openFrame target) s (fun _ s' =>
      (((s'.frames.recordCall site).find? (.entry target)).bind Frame.net = none →
        post () { s' with frames := s'.frames.recordCall site }) ∧
      ∀ net, ((s'.frames.recordCall site).find? (.entry target)).bind Frame.net = some net →
        Ensures (resume job site net) { s' with frames := s'.frames.recordCall site } post bad)
      bad) :
    Ensures (call job f i depth target) s post bad := by
  subst hsite
  unfold call
  refine Ensures.of_bind (h.mono ?_ (fun _ _ h => h))
  intro _ s' hs'
  refine Ensures.of_bind (Ensures.of_modify (Ensures.of_bind (Ensures.of_modify
    (Ensures.of_bind (Ensures.of_get ?_)))))
  cases hnet : ((s'.frames.recordCall ⟨f, target, i.pc, i.next, depth⟩).find?
      (.entry target)).bind Frame.net with
  | none =>
      have hpost := hs'.1 hnet
      simp only [Frames.recordCall, Frame.withCaller, Frame.withCall] at hnet
      simp only [hnet]
      exact Ensures.of_pure hpost
  | some net =>
      have hpost := hs'.2 net hnet
      simp only [Frames.recordCall, Frame.withCaller, Frame.withCall] at hnet
      simp only [hnet]
      exact hpost

/-- The main program does not return; the first return of a subroutine fixes its depth and resumes
its callers; a later one has to agree. -/
theorem ensures_returnFrom
    (hmain : ∀ r : Rejection, r.cause.reason ≠ .stepLimitExceeded → f = .main →
      bad (.rejected r) s)
    (hclosed : f ≠ .main → s.frames.find? f = none → post () s)
    (hfirst : ∀ F, f ≠ .main → s.frames.find? f = some F → F.net = none →
      Ensures (F.callers.forM (fun site => resume job site depth))
        { s with frames := s.frames.modify f (·.returned depth) } post bad)
    (hagree : ∀ F, f ≠ .main → s.frames.find? f = some F → F.net = some depth → post () s)
    (hdiffer : ∀ (r : Rejection) F net, r.cause.reason ≠ .stepLimitExceeded → f ≠ .main →
      s.frames.find? f = some F → F.net = some net → net ≠ depth → bad (.rejected r) s) :
    Ensures (returnFrom job f i depth) s post bad := by
  unfold returnFrom
  by_cases hf : f = .main
  · simp only [hf, if_true]
    exact ensures_refuse (hmain ⟨_, _, _⟩ (by simp [Cause.reason]) hf)
  · simp only [hf, if_false]
    refine Ensures.of_bind (Ensures.of_get ?_)
    cases hfind : s.frames.find? f with
    | none => exact Ensures.of_pure (hclosed hf hfind)
    | some F =>
        simp only
        cases hnet : F.net with
        | none => exact Ensures.of_bind (Ensures.of_modify (hfirst F hf hfind hnet))
        | some net =>
            simp only
            by_cases heq : net = depth
            · simp only [heq, if_true]
              exact Ensures.of_pure (hagree F hf hfind (hnet.trans (by rw [heq])))
            · simp only [heq, if_false]
              exact ensures_refuse
                (hdiffer ⟨_, _, _⟩ F net (by simp [Cause.reason]) hf hfind hnet heq)

end

/-! ## Dispatch -/

/-- A dispatch carries out the successors of its instruction. -/
theorem dispatch_eq (job : Job) (f : FrameId) (i : Instruction) (depth : Int)
    (known : Constants) :
    dispatch job f i depth known =
      match job.successors i known with
      | .error e => throw e
      | .ok next => do
          next.jumps.forM (fun t => pushPath ⟨f, t, depth⟩)
          next.calls.forM (fun t => call job f i depth t)
          if next.returns then returnFrom job f i depth
          return next.fall.map (fun k => ⟨i.descriptor.width, depth, k⟩) := by
  unfold dispatch Job.successors
  -- by kind; only a cut or a search for targets can fail, and it fails alike on both sides
  cases hkind : i.descriptor.kind <;> simp only
  case push =>
    unfold cut Job.cut?
    cases job.limit.count? <;> rfl
  case plain =>
    split
    · rfl
    · unfold cut Job.cut?
      cases job.limit.count? <;> rfl
  case jump | jumpi =>
    cases job.targets i known .jumpdest <;> rfl
  case jumpsub =>
    cases job.callTargets i known <;> rfl
  all_goals rfl

theorem ensures_dispatch {post : Option Onward → State → Prop} {bad : Halt → State → Prop}
    (hbad : ∀ e, job.successors i known = .error e → bad e s)
    (hok : ∀ next, job.successors i known = .ok next →
      Ensures (next.calls.forM (fun t => call job f i depth t))
        { s with worklist := (next.jumps.map (fun t => ⟨f, t, depth⟩)).reverse ++ s.worklist }
        (fun _ s' =>
          (next.returns = true → Ensures (returnFrom job f i depth) s'
            (fun _ s'' => post (next.fall.map (fun k => ⟨i.descriptor.width, depth, k⟩)) s'') bad) ∧
          (next.returns = false →
            post (next.fall.map (fun k => ⟨i.descriptor.width, depth, k⟩)) s')) bad) :
    Ensures (dispatch job f i depth known) s post bad := by
  rw [dispatch_eq]
  cases hnext : job.successors i known with
  | error e => exact Ensures.of_throw (hbad e hnext)
  | ok next =>
      simp only
      refine Ensures.of_bind (ensures_pushPaths (Ensures.of_bind ((hok next hnext).mono ?_
        (fun _ _ h => h))))
      intro _ s' hs'
      by_cases hreturn : next.returns = true
      · simp only [hreturn, if_true]
        exact Ensures.of_bind ((hs'.1 hreturn).mono (fun _ _ h => Ensures.of_pure h)
          (fun _ _ h => h))
      · simp only [hreturn, Bool.false_eq_true, if_false]
        exact Ensures.of_pure (hs'.2 (by simpa using hreturn))

/-! ## Visits -/

theorem ensures_countStep {post : Unit → State → Prop} {bad : Halt → State → Prop}
    (hover : (job.ceiling s.frames.size).floor < (s.steps + 1 : Nat) →
      bad (.rejected ⟨.stepLimit (job.ceiling s.frames.size), some pc, none⟩)
        { s with steps := s.steps + 1 })
    (hok : post () { s with steps := s.steps + 1 }) : Ensures (countStep job pc) s post bad := by
  unfold countStep
  refine Ensures.of_bind (Ensures.of_modify (Ensures.of_bind (Ensures.of_get ?_)))
  by_cases hceiling : (job.ceiling s.frames.size).floor < (s.steps + 1 : Nat)
  · simp only [hceiling, if_true]
    exact hover hceiling
  · simp only [hceiling, if_false]
    exact hok

/-- What it means that the depths of an instruction are within the limits of its frame. -/
theorem checkDepth_eq_ok_iff {low after : Int} :
    job.checkDepth f i depth = .ok (low, after) ↔
      low = depth - i.descriptor.inputs ∧ after = depth + i.descriptor.delta ∧
        (f = .main → 0 ≤ low) ∧ -low ≤ job.limit.floor ∧ after ≤ job.limit.floor := by
  simp only [Job.checkDepth]
  by_cases hbelow : depth - (i.descriptor.inputs : Int) < 0 ∧ f = .main
  · simp only [hbelow, and_self, if_true, refuse, reduceCtorEq, false_iff]
    rintro ⟨rfl, -, hmain, -⟩
    have := hmain trivial
    omega
  · simp only [hbelow, if_false]
    by_cases hcaller : job.limit.floor < -(depth - (i.descriptor.inputs : Int))
    · simp only [hcaller, if_true, refuse, reduceCtorEq, false_iff]
      omega
    · simp only [hcaller, if_false]
      by_cases hover : job.limit.floor < depth + i.descriptor.delta
      · simp only [hover, if_true, refuse, reduceCtorEq, false_iff]
        omega
      · simp only [hover, if_false, Except.ok.injEq, Prod.mk.injEq]
        constructor
        · rintro ⟨rfl, rfl⟩
          refine ⟨rfl, rfl, fun hmain => ?_, by omega, by omega⟩
          have := not_and.1 hbelow
          have hlt : ¬ depth - (i.descriptor.inputs : Int) < 0 := fun hlt => this hlt hmain
          omega
        · rintro ⟨rfl, rfl, -⟩
          exact ⟨rfl, rfl⟩

/-- An instruction that is refused for its depths has too few items or too many. -/
theorem checkDepth_error {r : Rejection} (h : job.checkDepth f i depth = .error r) :
    ∃ cause : Cause, r = ⟨cause, some i.pc, some i.offender⟩ ∧
      cause.reason ∈ [Reason.stackUnderflow, .stackOverflow] := by
  simp only [Job.checkDepth] at h
  split at h
  · cases h
    exact ⟨_, rfl, by simp [Cause.reason]⟩
  · split at h
    · cases h
      exact ⟨_, rfl, by simp [Cause.reason]⟩
    · split at h
      · cases h
        exact ⟨_, rfl, by simp [Cause.reason]⟩
      · cases h

theorem checkDepth_reason {r : Rejection} (h : job.checkDepth f i depth = .error r) :
    r.cause.reason ≠ .stepLimitExceeded := by
  obtain ⟨cause, rfl, hcause⟩ := checkDepth_error h
  intro hreason
  simp [hreason] at hcause

theorem decode_reason {r : Rejection} (h : job.program.decode pc = .error r) :
    r.cause.reason ≠ .stepLimitExceeded := by
  rw [(Program.decode_error_located h).1]
  simp

/-- An expansion notes the depth of its counter, and dispatches if the depths are in order. -/
theorem ensures_expand {post : Option Onward → State → Prop} {bad : Halt → State → Prop}
    (hdepth : ∀ r, job.checkDepth f i depth = .error r →
      bad (.rejected r) { s with frames := s.frames.modify f (·.visited pc depth) })
    (hdispatch : ∀ after, job.checkDepth f i depth = .ok (depth - i.descriptor.inputs, after) →
      Ensures (dispatch job f i after known)
        { s with frames := s.frames.record f pc depth (depth - i.descriptor.inputs) after }
        post bad) :
    Ensures (expand job f pc i depth known) s post bad := by
  unfold expand
  refine Ensures.of_bind (Ensures.of_modify (Ensures.of_bind (ensures_require ?_ hdepth)))
  rintro ⟨low, after⟩ hcheck
  obtain rfl := (checkDepth_eq_ok_iff.1 hcheck).1
  exact Ensures.of_bind (Ensures.of_modify (hdispatch after hcheck))

/-- A visit counts a step, decodes, and then meets a counter visited before or expands a new one. -/
theorem ensures_visit {post : Option Onward → State → Prop} {bad : Halt → State → Prop}
    (hover : (job.ceiling s.frames.size).floor < (s.steps + 1 : Nat) →
      bad (.rejected ⟨.stepLimit (job.ceiling s.frames.size), some pc, none⟩)
        { s with steps := s.steps + 1 })
    (hdecode : ∀ r, job.program.decode pc = .error r →
      bad (.rejected r) { s with steps := s.steps + 1 })
    (hseen : ∀ i, job.program.decode pc = .ok i → s.frames.depth? f pc = some depth →
      post none { s with steps := s.steps + 1 })
    (hdiffer : ∀ i seen, job.program.decode pc = .ok i → s.frames.depth? f pc = some seen →
      seen ≠ depth → bad (.rejected ⟨.depthMismatch depth seen, some i.pc, some i.offender⟩)
        { s with steps := s.steps + 1 })
    (hexpand : ∀ i, job.program.decode pc = .ok i → s.frames.depth? f pc = none →
      Ensures (expand job f pc i depth known) { s with steps := s.steps + 1 } post bad) :
    Ensures (visit job f pc depth known) s post bad := by
  unfold visit
  refine Ensures.of_bind (ensures_countStep hover (Ensures.of_bind (ensures_require ?_ hdecode)))
  intro i hi
  refine Ensures.of_bind (Ensures.of_get ?_)
  cases hat : s.frames.depth? f pc with
  | some seen =>
      simp only [Frames.depth?] at hat
      simp only [hat]
      by_cases heq : seen = depth
      · simp only [heq, if_true]
        exact Ensures.of_pure (hseen i hi (by rw [Frames.depth?, hat, heq]))
      · simp only [heq, if_false]
        exact ensures_refuse (hdiffer i seen hi hat heq)
  | none =>
      simp only [Frames.depth?] at hat
      simp only [hat]
      exact hexpand i hi hat

/-! ## Whole traversals -/

/-- What every visit of a path keeps, the path keeps: `I` while it is followed, `J` behind it. -/
theorem ensures_follow {I : Nat → Int → Constants → State → Prop} {J : State → Prop}
    {bad : Halt → State → Prop}
    (hend : ∀ pc depth known s, job.program.length ≤ pc → I pc depth known s → J s)
    (hvisit : ∀ pc depth known s, pc < job.program.length → I pc depth known s →
      Ensures (visit job f pc depth known) s (fun on s' =>
        match on with
        | none => J s'
        | some on => I (pc + 1 + on.width) on.depth on.constants s') bad)
    (h : I pc depth known s) : Ensures (follow job f pc depth known) s (fun _ s' => J s') bad := by
  induction pc, depth, known using follow.induct job generalizing s with
  | case1 pc depth known hpc ih =>
      rw [follow, if_pos hpc]
      refine Ensures.of_bind ((hvisit pc depth known s hpc h).mono ?_ (fun _ _ h => h))
      intro on s' hs'
      cases on with
      | none => exact Ensures.of_pure hs'
      | some on => exact ih on hs'
  | case2 pc depth known hpc =>
      rw [follow, if_neg hpc]
      exact Ensures.of_pure (hend pc depth known s (by omega) h)

/-- What every visit keeps, a traversal keeps.  The number counts the paths taken from the worklist,
and a traversal ends with an empty worklist or with its fuel used up. -/
theorem ensures_followAll {I : Nat → FrameId → Nat → Int → Constants → State → Prop}
    {J : Nat → State → Prop} {bad : Halt → State → Prop}
    (htake : ∀ n s p rest, J n s → s.worklist = p :: rest →
      I (n + 1) p.frame p.pc p.depth [] { s with worklist := rest })
    (hend : ∀ n f pc depth known s, job.program.length ≤ pc → I n f pc depth known s → J n s)
    (hvisit : ∀ n f pc depth known s, pc < job.program.length → I n f pc depth known s →
      Ensures (visit job f pc depth known) s (fun on s' =>
        match on with
        | none => J n s'
        | some on => I n f (pc + 1 + on.width) on.depth on.constants s') bad)
    (fuel : Nat) {n : Nat} (h : J n s) :
    Ensures (followAll job fuel) s
      (fun _ s' => ∃ m, J m s' ∧ (s'.worklist = [] ∨ m = n + fuel)) bad := by
  -- the rule of `ensures_follow` for each path, and induction on the fuel for their number
  induction fuel generalizing n s with
  | zero => exact Ensures.of_pure ⟨n, h, Or.inr rfl⟩
  | succ fuel ih =>
      rw [followAll]
      refine Ensures.of_bind (Ensures.of_get ?_)
      cases hwork : s.worklist with
      | nil => exact Ensures.of_pure ⟨n, h, Or.inl hwork⟩
      | cons p rest =>
          refine Ensures.of_bind (Ensures.of_set (Ensures.of_bind ?_))
          refine (ensures_follow (hend (n + 1) p.frame) (hvisit (n + 1) p.frame)
            (htake n s p rest h hwork)).mono ?_ (fun _ _ h => h)
          intro _ s' hs'
          refine (ih hs').mono ?_ (fun _ _ h => h)
          rintro _ s'' ⟨m, hm, hdone⟩
          refine ⟨m, hm, hdone.imp_right (fun hfuel => ?_)⟩
          omega

end FlowCheck.Validator
