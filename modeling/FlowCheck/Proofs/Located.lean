import FlowCheck.Proofs.Moments
import FlowCheck.Proofs.Summaries

/-!
# Rejections point at the code

Whatever a validation refuses, its rejection names a counter inside the code at which an instruction
starts and, unless the ceiling on the steps was the reason, the byte found there.  During the
traversal a refusal is about the instruction of the current path or about a call that was recorded
before, and only places where an instruction can start are ever reached (`Reach.stands`).  Behind
the traversal it is about a recorded call: that of a caller with too few items, or the one that
leads to the peak of the main program, whose own instructions stay within the limit.
-/

namespace FlowCheck.Validator

variable {job : Job} {s : State} {f : FrameId} {pc : Nat} {depth : Int} {known : Constants}
  {i : Instruction} {site : CallSite} {cause : Cause}

/-! ## What it means to be located -/

/-- A rejection is about the byte at a counter, which is an instruction boundary. -/
structure PointsAt (p : Program) (r : Rejection) (pc : Nat) (b : UInt8) : Prop where
  /-- The rejection names the counter. -/
  counter : r.pc = some (pc : Int)
  inside : pc < p.length
  boundary : p.isBoundary pc = true
  byte : p.code[pc]? = some b
  /-- The rejection names the byte. -/
  offender : r.cause.reason ≠ .stepLimitExceeded → ∃ o, r.offender = some o ∧ o.value = b.toNat
  unbalanced : r.cause.reason = .unbalancedReturn → r.offender = some (.opcode .returnsub)
  jump : r.cause.reason = .invalidJumpDestination →
    ∃ op ∈ [Opcode.jump, .jumpi, .jumpsub], r.offender = some (.opcode op)
  unrecognised : r.cause.reason = .invalidInstruction →
    r.offender = some (.byte b.toNat) ∧ Opcode.ofByte? b = none

/-- A rejection is about some instruction boundary of the code. -/
def Located (p : Program) (r : Rejection) : Prop :=
  ∃ pc b, PointsAt p r pc b

/-- The refusal that ends a traversal is located. -/
def Halt.Located (p : Program) (e : Halt) : Prop :=
  ∀ r, e = .rejected r → Validator.Located p r

/-- The opcode of a kind that has only one, for the kinds that transfer control. -/
def transferOpcode? : Kind → Option Opcode
  | .jump => some .jump
  | .jumpi => some .jumpi
  | .jumpsub => some .jumpsub
  | .returnsub => some .returnsub
  | _ => none

theorem opcode_of_transfer {op : Opcode} (hpc : pc < job.program.length)
    (hi : job.program.decode pc = .ok i) (hkind : transferOpcode? i.descriptor.kind = some op) :
    i.opcode = op := by
  rw [Program.decode_descriptor hpc hi] at hkind
  generalize i.opcode = op' at hkind
  generalize job.program.mode = mode at hkind
  cases op' <;> cases mode <;> cases hkind <;> rfl

/-- A refused instruction is the one that stands at its counter. -/
theorem located_of_refused (hpc : pc < job.program.length) (hi : job.program.decode pc = .ok i)
    (hrecognised : cause.reason ≠ .invalidInstruction)
    (hreturn : cause.reason = .unbalancedReturn → i.opcode = .returnsub)
    (hjump : cause.reason = .invalidJumpDestination → i.opcode ∈ [Opcode.jump, .jumpi, .jumpsub]) :
    Located job.program ⟨cause, some i.pc, some i.offender⟩ := by
  obtain ⟨hbound, hbyte⟩ := Program.decode_byte hpc hi
  refine ⟨pc, i.opcode.toByte, ?_, hpc, hbound, hbyte, fun _ => ⟨_, rfl, rfl⟩, fun h => ?_,
    fun h => ⟨i.opcode, hjump h, rfl⟩, fun h => absurd h hrecognised⟩
  · rw [Program.decode_pc hi]
  · rw [Instruction.offender, hreturn h]

/-- Too few or too many items are never the fault of a jump, a return or a byte. -/
theorem located_of_depth (hpc : pc < job.program.length) (hi : job.program.decode pc = .ok i)
    (hcause : cause.reason ∈ [Reason.stackUnderflow, .stackOverflow, .inconsistentStackDepth]) :
    Located job.program ⟨cause, some i.pc, some i.offender⟩ := by
  apply located_of_refused hpc hi
  all_goals
    intro hreason
    simp [hreason] at hcause

/-- A recorded call is located at its instruction. -/
theorem CallSite.Justified.located (h : site.Justified job)
    (hcause : cause.reason ∈ [Reason.stackUnderflow, .stackOverflow]) :
    Located job.program ⟨cause, some site.pc, some (.opcode .jumpsub)⟩ := by
  obtain ⟨hpc, -, i, hi, hkind⟩ := h.call.of_call
  have hopcode : i.opcode = .jumpsub := opcode_of_transfer hpc hi (by rw [hkind]; rfl)
  have hlocated : Located job.program ⟨cause, some i.pc, some i.offender⟩ :=
    located_of_depth hpc hi (by simp at hcause ⊢; tauto)
  rwa [Program.decode_pc hi, Instruction.offender, hopcode] at hlocated

/-! ## Refusals during the traversal -/

/-- Only places where an instruction can start are reached. -/
theorem Reach.stands (h : Reach job (.point f pc depth known)) : job.program.Stands pc := by
  rcases h.point_cases with ⟨rfl, -⟩ | ⟨marker, hmarker⟩ | ⟨q, i, hq, hi, -, rfl, -⟩ |
    ⟨q, i, _, _, _, _, -, hpass, rfl, -⟩
  · exact job.program.stands_zero
  · exact Program.stands_of_hasMarker hmarker
  · exact Program.stands_next hq hi
  · exact Program.stands_next hpass.inside hpass.decoded

/-- The ceiling is exceeded at an instruction boundary. -/
theorem located_of_ceiling {ceiling : Amount} (hpc : pc < job.program.length)
    (hstands : job.program.Stands pc) :
    Located job.program ⟨.stepLimit ceiling, some pc, none⟩ := by
  have hbound := hstands.resolve_right (Nat.not_le.2 hpc)
  refine ⟨pc, _, rfl, hpc, hbound, Array.getElem?_eq_getElem hpc, fun h => absurd rfl h, ?_, ?_, ?_⟩
  all_goals
    intro hreason
    cases hreason

theorem located_of_decode {r : Rejection} (hstands : job.program.Stands pc)
    (h : job.program.decode pc = .error r) : Located job.program r := by
  obtain ⟨b, hbound, hb, rfl⟩ := Program.decode_error_of_stands hstands h
  have hpc : pc < job.program.length := (Array.getElem?_eq_some_iff.1 hb).1
  have hnone : Opcode.ofByte? b = none := by
    cases hop : Opcode.ofByte? b with
    | none => rfl
    | some op =>
        rw [(Program.decode_eq_ok_iff hpc).2 ⟨b, op, hb, hbound, hop, rfl⟩] at h
        cases h
  refine ⟨pc, b, rfl, hpc, hbound, hb, fun _ => ⟨_, rfl, rfl⟩, ?_, ?_, fun _ => ⟨rfl, hnone⟩⟩
  all_goals
    intro hreason
    cases hreason

/-- A traversal that a located refusal may end. -/
abbrev EndsLocated (job : Job) (m : Walk α) (s : State) : Prop :=
  Ensures m s (fun _ _ => True) (fun e _ => e.Located job.program)

theorem ends_refuse (h : Located job.program ⟨cause, some i.pc, some i.offender⟩) :
    EndsLocated job (require (refuse i cause) : Walk α) s :=
  ensures_refuse (by rintro r ⟨⟩; exact h)

/-- A resumption is refused at the call. -/
theorem ends_resume (hsite : site.Justified job) (net : Int) :
    EndsLocated job (resume job site net) s := by
  unfold resume
  dsimp only
  split
  · exact Ensures.of_throw (by rintro r ⟨⟩; exact hsite.located (by simp [Cause.reason]))
  · split
    · exact Ensures.of_throw (by rintro r ⟨⟩; exact hsite.located (by simp [Cause.reason]))
    · exact ensures_pushPath trivial

theorem ends_call {target : Nat} (hdecoded : job.program.decode i.pc = .ok i)
    (hcall : Reach job (.call f i.pc depth target)) :
    EndsLocated job (call job f i depth target) s := by
  have hsite : CallSite.Justified job ⟨f, target, i.pc, i.next, depth⟩ := ⟨hcall, i, hdecoded, rfl⟩
  have hresumed : ∀ s' : State, (((s'.frames.recordCall
      ⟨f, target, i.pc, i.next, depth⟩).find? (.entry target)).bind Frame.net = none → True) ∧
      ∀ net, ((s'.frames.recordCall ⟨f, target, i.pc, i.next, depth⟩).find?
        (.entry target)).bind Frame.net = some net →
        EndsLocated job (resume job ⟨f, target, i.pc, i.next, depth⟩ net)
          { s' with frames := s'.frames.recordCall ⟨f, target, i.pc, i.next, depth⟩ } :=
    fun s' => ⟨fun _ => trivial, fun net _ => ends_resume hsite net⟩
  exact ensures_call rfl (ensures_openFrame (fun _ => hresumed _) (fun _ => hresumed _))

/-- A return is refused itself, or at one of the calls that it resumes. -/
theorem ends_returnFrom (h : s.Justified job) (hpc : pc < job.program.length)
    (hi : job.program.decode pc = .ok i) (hkind : i.descriptor.kind = .returnsub) :
    EndsLocated job (returnFrom job f i depth) s := by
  have hopcode : i.opcode = .returnsub := opcode_of_transfer hpc hi (by rw [hkind]; rfl)
  unfold returnFrom
  split
  · exact ends_refuse (located_of_refused hpc hi (by simp [Cause.reason]) (fun _ => hopcode)
      (by simp [Cause.reason]))
  · refine Ensures.of_bind (Ensures.of_get ?_)
    cases hF : s.frames.find? f with
    | none => exact Ensures.of_pure trivial
    | some F =>
        dsimp only
        cases F.net with
        | none =>
            refine Ensures.of_bind (Ensures.of_modify
              (Ensures.of_forM (P := fun _ => True) ?_ trivial))
            intro site hsite s' _
            exact ends_resume ((h.frames f F hF).callers site hsite).2.1 depth
        | some net =>
            dsimp only
            split
            · exact Ensures.of_pure trivial
            · exact ends_refuse (located_of_depth hpc hi (by simp [Cause.reason]))

theorem ends_dispatch {after : Int} (h : s.Justified job)
    (hpoint : Reach job (.point f pc depth known)) (hpc : pc < job.program.length)
    (hi : job.program.decode pc = .ok i)
    (hdepth : job.checkDepth f i depth = .ok (depth - i.descriptor.inputs, after)) :
    EndsLocated job (dispatch job f i after known) s := by
  refine ensures_dispatch ?_ ?_
  · rintro e he r rfl
    obtain ⟨hkind, cause, rfl, hcause⟩ := Job.successors_error he
    refine located_of_refused hpc hi (by simp [hcause]) (by simp [hcause]) (fun _ => ?_)
    obtain ⟨op, htransfer, hop⟩ : ∃ op, transferOpcode? i.descriptor.kind = some op ∧
        op ∈ [Opcode.jump, .jumpi, .jumpsub] := by
      simp only [List.mem_cons, List.not_mem_nil, or_false] at hkind
      rcases hkind with hkind | hkind | hkind <;> rw [hkind] <;> exact ⟨_, rfl, by simp⟩
    rwa [opcode_of_transfer hpc hi htransfer]
  · intro next hnext
    have hpass : job.Passes f pc depth known i after next := ⟨hpc, hi, hdepth, hnext⟩
    have hpc' : i.pc = pc := Program.decode_pc hi
    by_cases hreturn : next.returns = true
    · -- a return calls nothing, so the frames are still those that were justified
      have hkind := Job.successors_returns hnext hreturn
      have hcases := Job.successors_cases hnext
      simp only [hkind] at hcases
      subst hcases
      exact Ensures.of_pure ⟨fun _ => ends_returnFrom (h.push [] (by simp)) hpc hi hkind,
        fun _ => trivial⟩
    · refine (Ensures.of_forM (P := fun _ => True) ?_ trivial).mono
        (fun _ _ _ => ⟨fun h => absurd h hreturn, fun _ => trivial⟩) (fun _ _ h => h)
      intro t ht s' _
      refine ends_call (by rw [hpc']; exact hi) ?_
      rw [hpc']
      exact hpoint.call hpass ht

/-- Whatever ends a visit is located. -/
theorem ends_visit (h : Following job f pc depth known s) (hpc : pc < job.program.length) :
    EndsLocated job (visit job f pc depth known) s := by
  have hstands := h.point.stands
  refine ensures_visit ?_ ?_ (fun _ _ _ => trivial) ?_ ?_
  · rintro - r ⟨⟩
    exact located_of_ceiling hpc hstands
  · rintro r hr r' ⟨⟩
    exact located_of_decode hstands hr
  · rintro i seen hi - - r ⟨⟩
    exact located_of_depth hpc hi (by simp [Cause.reason])
  · intro i hi _
    refine ensures_expand ?_ (fun after hcheck => ?_)
    · rintro r hr r' ⟨⟩
      obtain ⟨cause, rfl, hcause⟩ := checkDepth_error hr
      exact located_of_depth hpc hi (by simp at hcause ⊢; tauto)
    · exact ends_dispatch (h.count.recorded hpc hcheck) h.point hpc hi hcheck

/-- The refusal that ends a traversal is located. -/
theorem located_of_traverse {e : Halt} (h : traverse job = .error e s) : e.Located job.program := by
  have hwalk : Ensures (followAll job job.pathBound) {} (fun _ _ => True)
      (fun e _ => e.Located job.program) := by
    refine (ensures_followAll
      (I := fun _ f pc depth known s => Following job f pc depth known s)
      (J := fun _ s => s.Justified job) ?_ (fun _ _ _ _ _ _ _ h => h.justified) ?_ job.pathBound
      (n := 0) (justified_start job)).mono (fun _ _ _ => trivial) (fun _ _ h => h)
    · intro _ s p rest hs hwork
      have hp : p ∈ s.worklist := by simp [hwork]
      obtain ⟨hpoint, hopen⟩ := hs.paths p hp
      exact ⟨{ hs with paths := fun q hq => hs.paths q (by simp [hwork, hq]) }, hpoint, hopen⟩
    · intro _ f pc depth known s hpc hs
      exact ((justified_visit hs hpc).and (ends_visit hs hpc)).mono (fun _ _ h => h.1)
        (fun _ _ h => h.2)
  exact hwalk.of_error h

/-! ## Refusals behind the traversal -/

/-- The peak of a frame is that of its own instructions or comes from one of its calls. -/
theorem peakOf_site (heights : PerFrame Peak) (component : List FrameId) (F : Frame) :
    peakOf heights component F = ⟨F.high, none⟩ ∨
      ∃ site ∈ F.calls, (peakOf heights component F).site = some site.pc := by
  rw [peakOf_eq_foldl]
  -- the search keeps the best so far or moves on to the call that it looks at
  have hfold : ∀ (calls : List CallSite) (best : Peak),
      calls.foldl (peakStep heights component) best = best ∨
        ∃ site ∈ calls, (calls.foldl (peakStep heights component) best).site = some site.pc := by
    intro calls
    induction calls with
    | nil => exact fun best => Or.inl rfl
    | cons site rest ih =>
        intro best
        rw [List.foldl_cons]
        rcases ih (peakStep heights component best site) with hsame | ⟨site', hmem, hsite⟩
        · rw [hsame]
          unfold peakStep
          split
          · exact Or.inl rfl
          · split
            · exact Or.inr ⟨site, List.mem_cons_self .., rfl⟩
            · exact Or.inl rfl
        · exact Or.inr ⟨site', List.mem_cons_of_mem _ hmem, hsite⟩
  exact hfold F.calls ⟨F.high, none⟩

/-- The check of the call sites refuses located calls.  That a chain of calls rises too high is
never due to the main program alone, which stays within a limit that is not negative. -/
theorem located_of_summarise {fs : Frames} {r : Rejection} (hs : Traversed job fs)
    (hlimit : 0 ≤ job.limit.floor) (h : summarise job.limit fs = .error r) :
    Located job.program r := by
  rcases summarise_error h with ⟨id, F, hF, site, hsite, cause, rfl, hcause⟩ |
    ⟨top, htop, hover, rfl⟩
  · have hjustified := ((hs.justified.frames id F hF).callers site hsite).2.1
    exact hjustified.located (by simp [hcause])
  · obtain ⟨F, hF⟩ := Option.ne_none_iff_exists'.1 hs.justified.main
    obtain ⟨component, -, hpeak⟩ := getElem?_peaks hs.justified.nodup hF
    rw [hpeak, Option.getD_some] at htop
    subst htop
    have hframe := hs.justified.frames .main F hF
    have hhigh := hframe.high_within
    rcases peakOf_site (peaks fs) component F with hown | ⟨site, hsite, hcalled⟩
    · rw [hown] at hover
      simp only at hover
      omega
    · rw [hcalled]
      exact (hframe.calls site hsite).2.1.located (by simp [Cause.reason])

/-- Every rejection names an instruction boundary inside the code and, unless the ceiling was
exceeded, the byte found there: that of a return, of a jump or call, or an unrecognised one where
the reason says so.  A rejected program has no summaries. -/
theorem rejection_located {report : Report} {r : Rejection} (hlimit : 0 ≤ job.limit.floor)
    (h : validate job = .ok report) (hr : report.verdict = .rejected r) :
    (∃ pc b, PointsAt job.program r pc b) ∧ report.subroutines = [] := by
  unfold validate at h
  cases htraverse : traverse job with
  | error e s =>
      rw [htraverse] at h
      cases e with
      | uncountable => cases h
      | rejected r' =>
          cases h
          cases hr
          exact ⟨located_of_traverse htraverse r rfl, rfl⟩
  | ok _ s =>
      rw [htraverse] at h
      dsimp only at h
      cases hsummarise : summarise job.limit s.frames with
      | error r' =>
          rw [hsummarise] at h
          cases h
          cases hr
          exact ⟨located_of_summarise (traversed_of_traverse htraverse) hlimit hsummarise, rfl⟩
      | ok subroutines =>
          rw [hsummarise] at h
          cases h
          cases hr

namespace Sample

/-- A call with one item on the stack to a subroutine that needs room for another one, under a limit
of one. -/
def overfull : Job :=
  Job.make (Program.ofCode .immediate #[0x36, 0x5d, 0x00, 0x00, 0x06, 0x00, 0x5c, 0x36, 0x50, 0x5e])
    JumpTable.empty (.whole 1) (.whole 2)

/-- The end of its traversal. -/
def overfullEnd : State where
  frames := ⟨[
    { id := .main
      depths := ((({} : Std.HashMap Nat Int).insert 0 0).insert 1 1).insert 5 1
      high := 1
      calls := [⟨.main, 6, 1, 5, 1⟩] },
    { id := .entry 6
      depths := (((({} : Std.HashMap Nat Int).insert 6 0).insert 7 0).insert 8 1).insert 9 0
      high := 1
      net := some 0
      callers := [⟨.main, 6, 1, 5, 1⟩] }]⟩
  worklist := []
  steps := 7

set_option maxRecDepth 10000 in
theorem traverse_overfull : traverse overfull = .ok () overfullEnd := by
  cbv

set_option maxRecDepth 10000 in
theorem validate_overfull :
    validate overfull =
      .ok ⟨.rejected ⟨.callChain 2 (.whole 1), some 1, some (.opcode .jumpsub)⟩, [], 7, 2⟩ := by
  rw [validate, traverse_overfull]
  cbv

end Sample

theorem rejection_located_overfull :
    0 ≤ Sample.overfull.limit.floor ∧
      ∃ report r, validate Sample.overfull = .ok report ∧ report.verdict = .rejected r ∧
        (∃ pc b, PointsAt Sample.overfull.program r pc b) ∧ report.subroutines = [] := by
  have hlimit : 0 ≤ Sample.overfull.limit.floor := by decide
  exact ⟨hlimit, _, _, Sample.validate_overfull, rfl,
    rejection_located hlimit Sample.validate_overfull rfl⟩

end FlowCheck.Validator
