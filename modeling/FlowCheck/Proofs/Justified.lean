import FlowCheck.Proofs.Walk

/-!
# Everything recorded is reached

At every moment of a traversal, what the frames and the worklist hold is a fact of `Reach`: a depth
at a counter, a call, a depth at the returns, a path still to follow.  So if the program is
consistent, a traversal can be refused for one reason only, the ceiling on its steps
(`justified_visit`).
-/

namespace FlowCheck.Validator

variable {job : Job} {s : State} {f : FrameId} {pc : Nat} {depth : Int} {known : Constants}
  {i : Instruction} {site : CallSite}

/-- A recorded call is one that its frame makes, and resumes behind its instruction. -/
structure CallSite.Justified (job : Job) (site : CallSite) : Prop where
  call : Reach job (.call site.caller site.pc site.depth site.callee)
  resume : ∃ i, job.program.decode site.pc = .ok i ∧ site.resume = i.next

/-- What a frame holds are facts, and its calls lead to and from open frames. -/
structure Frame.Justified (job : Job) (fs : Frames) (f : FrameId) (F : Frame) : Prop where
  points : ∀ pc depth, F.depths[pc]? = some depth →
    pc < job.program.length ∧ ∃ known, Reach job (.point f pc depth known)
  net : ∀ depth, F.net = some depth → Reach job (.ret f depth)
  callers : ∀ site ∈ F.callers, f = .entry site.callee ∧ site.Justified job ∧
    fs.find? site.caller ≠ none
  calls : ∀ site ∈ F.calls, f = site.caller ∧ site.Justified job ∧
    fs.find? (.entry site.callee) ≠ none
  low_nonpos : F.low ≤ 0
  high_nonneg : 0 ≤ F.high
  low_main : f = .main → F.low = 0
  low_within : F.low = 0 ∨ -F.low ≤ job.limit.floor
  high_within : F.high = 0 ∨ F.high ≤ job.limit.floor

/-- What a traversal holds are facts. -/
structure State.Justified (job : Job) (s : State) : Prop where
  nodup : s.frames.ids.Nodup
  main : s.frames.find? .main ≠ none
  opened : ∀ e, s.frames.find? (.entry e) ≠ none → ∃ g pc depth, Reach job (.call g pc depth e)
  frames : ∀ f F, s.frames.find? f = some F → F.Justified job s.frames f
  paths : ∀ p ∈ s.worklist, Reach job (.point p.frame p.pc p.depth []) ∧
    s.frames.find? p.frame ≠ none

/-- The only refusal of a consistent program is that of the ceiling. -/
def Excused (job : Job) (e : Halt) : Prop :=
  Consistent job → ∃ r, e = .rejected r ∧ r.cause.reason = .stepLimitExceeded

/-- Justification depends on which frames are open and on nothing else of the others. -/
theorem Frame.Justified.mono {fs fs' : Frames} {F : Frame} (h : F.Justified job fs f)
    (hopen : ∀ g, fs.find? g ≠ none → fs'.find? g ≠ none) : F.Justified job fs' f :=
  { h with
    callers := fun site hsite =>
      ⟨(h.callers site hsite).1, (h.callers site hsite).2.1, hopen _ (h.callers site hsite).2.2⟩
    calls := fun site hsite =>
      ⟨(h.calls site hsite).1, (h.calls site hsite).2.1, hopen _ (h.calls site hsite).2.2⟩ }

theorem Frames.find?_modify_ne_none (change : Frame → Frame) (hid : ∀ F, (change F).id = F.id)
    (fs : Frames) (id g : FrameId) : (fs.modify id change).find? g ≠ none ↔ fs.find? g ≠ none := by
  rw [Frames.find?_modify change hid]
  split <;> simp

/-- A fresh frame holds nothing. -/
theorem Frame.Justified.fresh (fs : Frames) (f : FrameId) :
    ({ id := f } : Frame).Justified job fs f where
  points := by simp
  net := by simp
  callers := by simp
  calls := by simp
  low_nonpos := by simp
  high_nonneg := by simp
  low_main := by simp
  low_within := Or.inl rfl
  high_within := Or.inl rfl

theorem Frame.Justified.withCaller {fs : Frames} {F : Frame} (h : F.Justified job fs f)
    (hf : f = .entry site.callee) (hsite : site.Justified job)
    (hcaller : fs.find? site.caller ≠ none) : (F.withCaller site).Justified job fs f := by
  refine { h with callers := fun site' hmem => ?_ }
  rcases List.mem_append.1 hmem with hmem | hmem
  · exact h.callers site' hmem
  · obtain rfl : site' = site := by simpa using hmem
    exact ⟨hf, hsite, hcaller⟩

theorem Frame.Justified.withCall {fs : Frames} {F : Frame} (h : F.Justified job fs f)
    (hf : f = site.caller) (hsite : site.Justified job)
    (hcallee : fs.find? (.entry site.callee) ≠ none) : (F.withCall site).Justified job fs f := by
  refine { h with calls := fun site' hmem => ?_ }
  rcases List.mem_append.1 hmem with hmem | hmem
  · exact h.calls site' hmem
  · obtain rfl : site' = site := by simpa using hmem
    exact ⟨hf, hsite, hcallee⟩

theorem Frame.Justified.visited {fs : Frames} {F : Frame} (h : F.Justified job fs f)
    (hpc : pc < job.program.length) (hpoint : Reach job (.point f pc depth known)) :
    (F.visited pc depth).Justified job fs f := by
  refine { h with points := fun pc' depth' hat => ?_ }
  simp only [Frame.visited, Std.HashMap.getElem?_insert] at hat
  split at hat
  · rename_i heq
    obtain rfl : pc = pc' := by simpa using heq
    obtain rfl : depth = depth' := by simpa using hat
    exact ⟨hpc, known, hpoint⟩
  · exact h.points pc' depth' hat

theorem Frame.Justified.ranged {fs : Frames} {F : Frame} {low after : Int}
    (h : F.Justified job fs f) (hmain : f = .main → 0 ≤ low) (hwithin : -low ≤ job.limit.floor)
    (hafter : after ≤ job.limit.floor) : (F.ranged low after).Justified job fs f := by
  have hlow := h.low_nonpos
  have hhigh := h.high_nonneg
  refine { h with
    low_nonpos := ?_, high_nonneg := ?_, low_main := fun hf => ?_, low_within := ?_,
    high_within := ?_ }
  · simp only [Frame.ranged]
    omega
  · simp only [Frame.ranged]
    omega
  · have := hmain hf
    have := h.low_main hf
    simp only [Frame.ranged]
    omega
  · have := h.low_within
    simp only [Frame.ranged]
    omega
  · have := h.high_within
    simp only [Frame.ranged]
    omega

theorem Frame.Justified.returned {fs : Frames} {F : Frame} (h : F.Justified job fs f)
    (hret : Reach job (.ret f depth)) : (F.returned depth).Justified job fs f := by
  refine { h with net := fun depth' hnet => ?_ }
  obtain rfl : depth = depth' := by simpa [Frame.returned] using hnet
  exact hret

namespace State.Justified

/-- Changing one frame keeps a traversal justified if the changed frame is. -/
theorem modify (h : s.Justified job) {id : FrameId} (change : Frame → Frame)
    (hid : ∀ F, (change F).id = F.id)
    (hchange : ∀ F, s.frames.find? id = some F → (change F).Justified job s.frames id) :
    ({ s with frames := s.frames.modify id change } : State).Justified job where
  nodup := by
    rw [Frames.ids_modify change hid]
    exact h.nodup
  main := (Frames.find?_modify_ne_none change hid _ _ _).2 h.main
  opened e he := h.opened e ((Frames.find?_modify_ne_none change hid _ _ _).1 he)
  frames g F hF := by
    have hopen := fun g => (Frames.find?_modify_ne_none change hid s.frames id g).2
    simp only [Frames.find?_modify change hid] at hF
    split at hF
    · rename_i hg
      subst hg
      obtain ⟨G, hG, rfl⟩ := Option.map_eq_some_iff.1 hF
      exact (hchange G hG).mono hopen
    · exact (h.frames g F hF).mono hopen
  paths p hp :=
    ⟨(h.paths p hp).1, (Frames.find?_modify_ne_none change hid _ _ _).2 (h.paths p hp).2⟩

theorem push (h : s.Justified job) (ps : List Path)
    (hps : ∀ p ∈ ps, Reach job (.point p.frame p.pc p.depth []) ∧ s.frames.find? p.frame ≠ none) :
    ({ s with worklist := ps ++ s.worklist } : State).Justified job :=
  { h with
    paths := fun p hp => (List.mem_append.1 hp).elim (hps p) (h.paths p) }

theorem count (h : s.Justified job) :
    ({ s with steps := s.steps + 1 } : State).Justified job :=
  { h with }

/-- A call opens the frame of its callee. -/
theorem open_ (h : s.Justified job) {target : Nat}
    (hcall : ∃ g pc depth, Reach job (.call g pc depth target))
    (hnone : s.frames.find? (.entry target) = none) :
    ({ s with
        frames := s.frames.add { id := .entry target }
        worklist := ⟨.entry target, target, 0⟩ :: s.worklist } : State).Justified job := by
  have hgrow : ∀ g, s.frames.find? g ≠ none →
      (s.frames.add { id := .entry target }).find? g ≠ none :=
    fun g hg => Frames.find?_add_ne_none hg _
  refine ⟨?_, hgrow _ h.main, ?_, ?_, ?_⟩
  · rw [Frames.ids_add, List.nodup_append]
    refine ⟨h.nodup, by simp, ?_⟩
    intro g hg g' hg'
    obtain rfl : g' = .entry target := by simpa using hg'
    rintro rfl
    exact Frames.find?_eq_none_iff.1 hnone hg
  · intro e he
    rw [Frames.find?_add] at he
    by_cases heq : e = target
    · subst heq
      exact hcall
    · refine h.opened e (fun hfind => he ?_)
      rw [hfind]
      simp [show ¬ target = e from fun h => heq h.symm]
  · intro g F hF
    rw [Frames.find?_add] at hF
    cases hfind : s.frames.find? g with
    | some G =>
        obtain rfl : G = F := by simpa [hfind] using hF
        exact (h.frames g G hfind).mono hgrow
    | none =>
        simp only [hfind, Option.none_or] at hF
        split at hF
        · rename_i hg
          subst hg
          cases hF
          exact Frame.Justified.fresh _ _
        · simp at hF
  · intro p hp
    rcases List.mem_cons.1 hp with rfl | hp
    · obtain ⟨g, pc, depth, hcall⟩ := hcall
      exact ⟨hcall.enter, Frames.find?_add_self_ne_none _ _⟩
    · exact ⟨(h.paths p hp).1, hgrow _ (h.paths p hp).2⟩

/-- A call is recorded on both sides. -/
theorem recordCall (h : s.Justified job) (hsite : site.Justified job)
    (hcaller : s.frames.find? site.caller ≠ none)
    (hcallee : s.frames.find? (.entry site.callee) ≠ none) :
    ({ s with frames := s.frames.recordCall site } : State).Justified job := by
  have hmid : ({ s with
      frames := s.frames.modify (.entry site.callee) (·.withCaller site) } : State).Justified job :=
    h.modify (·.withCaller site) (fun _ => rfl)
      (fun F hF => (h.frames _ F hF).withCaller rfl hsite hcaller)
  refine hmid.modify (·.withCall site) (fun _ => rfl)
    (fun F hF => (hmid.frames _ F hF).withCall rfl hsite ?_)
  exact (Frames.find?_modify_ne_none (·.withCaller site) (fun _ => rfl) _ _ _).2 hcallee

end State.Justified

/-! ## The operations of a traversal -/

/-- A justified call whose callee returns is resumed at a point that is reached. -/
theorem CallSite.Justified.resumption {net : Int} (h : site.Justified job)
    (hret : Reach job (.ret (.entry site.callee) net)) :
    Reach job (.point site.caller site.resume (site.depth + net) []) := by
  obtain ⟨i, hi, hresume⟩ := h.resume
  rw [hresume]
  exact h.call.resume hret hi

theorem CallSite.Justified.excused {net : Int} (h : site.Justified job)
    (hret : Reach job (.ret (.entry site.callee) net))
    (hnot : ¬ job.Fits site.caller (site.depth + net)) (e : Halt) : Excused job e :=
  fun hconsistent => absurd (hconsistent.fits h.call hret) hnot

theorem Frames.find?_recordCall_ne_none (fs : Frames) (site : CallSite) (g : FrameId) :
    (fs.recordCall site).find? g ≠ none ↔ fs.find? g ≠ none := by
  rw [Frames.recordCall, Frames.find?_modify_ne_none (·.withCall site) (fun _ => rfl),
    Frames.find?_modify_ne_none (·.withCaller site) (fun _ => rfl)]

/-- Once the frame of the callee is open, a call is recorded and, if that is known to return,
resumed. -/
theorem justified_resume (h : s.Justified job) (hsite : site.Justified job)
    (hcaller : s.frames.find? site.caller ≠ none) {net : Int}
    (hnet : (s.frames.find? (.entry site.callee)).bind Frame.net = some net) :
    Ensures (resume job site net) s
      (fun _ s' => s'.Justified job ∧ s'.frames.find? site.caller ≠ none)
      (fun e _ => Excused job e) := by
  obtain ⟨F, hF, hFnet⟩ := Option.bind_eq_some_iff.1 hnet
  have hret : Reach job (.ret (.entry site.callee) net) := (h.frames _ F hF).net net hFnet
  refine ensures_resume (fun _ => ⟨h.push [_] ?_, hcaller⟩)
    (fun r _ hnot => hsite.excused hret hnot _)
  intro p hp
  obtain rfl : p = site.resumption net := by simpa using hp
  exact ⟨hsite.resumption hret, hcaller⟩

theorem justified_call {target : Nat} (h : s.Justified job) (hf : s.frames.find? f ≠ none)
    (hdecoded : job.program.decode i.pc = .ok i)
    (hcall : Reach job (.call f i.pc depth target)) :
    Ensures (call job f i depth target) s
      (fun _ s' => s'.Justified job ∧ s'.frames.find? f ≠ none) (fun e _ => Excused job e) := by
  have hsite : CallSite.Justified job ⟨f, target, i.pc, i.next, depth⟩ := ⟨hcall, i, hdecoded, rfl⟩
  have hopened : Ensures (openFrame target) s (fun _ s' => s'.Justified job ∧
      s'.frames.find? f ≠ none ∧ s'.frames.find? (.entry target) ≠ none)
      (fun e _ => Excused job e) := by
    refine ensures_openFrame (fun hopen => ⟨h, hf, hopen⟩) (fun hnone => ?_)
    exact ⟨h.open_ ⟨f, i.pc, depth, hcall⟩ hnone, Frames.find?_add_ne_none hf _,
      Frames.find?_add_self_ne_none _ _⟩
  refine ensures_call rfl (hopened.mono ?_ (fun _ _ h => h))
  rintro _ s' ⟨hs', hf', htarget⟩
  have hrecorded := hs'.recordCall hsite hf' htarget
  have hcaller := (Frames.find?_recordCall_ne_none s'.frames
    ⟨f, target, i.pc, i.next, depth⟩ f).2 hf'
  exact ⟨fun _ => ⟨hrecorded, hcaller⟩,
    fun net hnet => justified_resume hrecorded hsite hcaller hnet⟩

theorem justified_returnFrom (h : s.Justified job) (hret : Reach job (.ret f depth)) :
    Ensures (returnFrom job f i depth) s (fun _ s' => s'.Justified job)
      (fun e _ => Excused job e) := by
  refine ensures_returnFrom ?_ (fun _ _ => h) ?_ (fun _ _ _ _ => h) ?_
  · rintro r - rfl hconsistent
    exact absurd hret hconsistent.no_stray
  · intro F hf hF hnone
    have hmod : ({ s with frames := s.frames.modify f (·.returned depth) } : State).Justified job :=
      h.modify (·.returned depth) (fun _ => rfl) (fun G hG => (h.frames _ G hG).returned hret)
    refine ensures_resumeAll (fun _ => hmod.push _ ?_) ?_
    · intro p hp
      obtain ⟨site, hsite, rfl⟩ := List.mem_map.1 (List.mem_reverse.1 hp)
      obtain ⟨rfl, hjust, hcaller⟩ := (h.frames f F hF).callers site hsite
      exact ⟨hjust.resumption hret,
        (Frames.find?_modify_ne_none (·.returned depth) (fun _ => rfl) _ _ _).2 hcaller⟩
    · intro r site s' _ hsite hnot _ _
      obtain ⟨rfl, hjust, -⟩ := (h.frames f F hF).callers site hsite
      exact hjust.excused hret hnot _
  · intro r F net _ _ hF hnet hne hconsistent
    exact absurd (hconsistent.one_return ((h.frames f F hF).net net hnet) hret) hne

/-- What is known while a path is followed. -/
structure Following (job : Job) (f : FrameId) (pc : Nat) (depth : Int) (known : Constants)
    (s : State) : Prop where
  justified : s.Justified job
  point : Reach job (.point f pc depth known)
  opened : s.frames.find? f ≠ none

theorem justified_dispatch {after : Int} (h : s.Justified job) (hf : s.frames.find? f ≠ none)
    (hpoint : Reach job (.point f pc depth known)) (hpc : pc < job.program.length)
    (hdecoded : job.program.decode pc = .ok i)
    (hdepth : job.checkDepth f i depth = .ok (depth - i.descriptor.inputs, after)) :
    Ensures (dispatch job f i after known) s (fun on s' =>
      match on with
      | none => s'.Justified job
      | some on => Following job f (pc + 1 + on.width) on.depth on.constants s')
      (fun e _ => Excused job e) := by
  have hi : i.pc = pc := Program.decode_pc hdecoded
  refine ensures_dispatch ?_ ?_
  · intro e he hconsistent
    obtain ⟨j, _, next, hpass⟩ := hconsistent.passes hpoint hpc
    have hj := hpass.decoded
    rw [hdecoded] at hj
    cases hj
    have := hpass.targets
    rw [he] at this
    cases this
  · intro next hnext
    have hpass : job.Passes f pc depth known i after next := ⟨hpc, hdecoded, hdepth, hnext⟩
    have hpushed : ({ s with worklist := (next.jumps.map (fun t => ⟨f, t, after⟩)).reverse ++
        s.worklist } : State).Justified job := by
      refine h.push _ (fun p hp => ?_)
      obtain ⟨t, ht, rfl⟩ := List.mem_map.1 (List.mem_reverse.1 hp)
      exact ⟨hpoint.jump hpass ht, hf⟩
    have hcall : ∀ t ∈ next.calls, ∀ s' : State,
        s'.Justified job ∧ s'.frames.find? f ≠ none →
        Ensures (call job f i after t) s' (fun _ s'' => s''.Justified job ∧
          s''.frames.find? f ≠ none) (fun e _ => Excused job e) := by
      rintro t ht s' ⟨hs', hf'⟩
      refine justified_call hs' hf' (by rw [hi]; exact hdecoded) ?_
      rw [hi]
      exact hpoint.call hpass ht
    -- behind the calls, a path either returns or goes on behind its instruction
    have hfall : ∀ s' : State, s'.Justified job → s'.frames.find? f ≠ none →
        match next.fall.map (fun k => (⟨i.descriptor.width, after, k⟩ : Onward)) with
        | none => s'.Justified job
        | some on => Following job f (pc + 1 + on.width) on.depth on.constants s' := by
      intro s' hs' hf'
      cases hk : next.fall with
      | none => exact hs'
      | some k =>
          refine ⟨hs', ?_, hf'⟩
          have := hpoint.fall hpass hk
          rwa [Instruction.next, hi] at this
    refine (Ensures.of_forM hcall ⟨hpushed, hf⟩).mono ?_ (fun _ _ h => h)
    rintro _ s' ⟨hs', hf'⟩
    refine ⟨fun hreturn => ?_, fun _ => hfall s' hs' hf'⟩
    have hkind := Job.successors_returns hnext hreturn
    have hcases := Job.successors_cases hnext
    simp only [hkind] at hcases
    subst hcases
    exact justified_returnFrom hs' (hpoint.ret hpass hreturn)

/-- What an instruction whose depths are in order leaves in its frame is justified. -/
theorem Following.recorded {after : Int} (h : Following job f pc depth known s)
    (hpc : pc < job.program.length)
    (hcheck : job.checkDepth f i depth = .ok (depth - i.descriptor.inputs, after)) :
    ({ s with frames := s.frames.record f pc depth (depth - i.descriptor.inputs) after } :
      State).Justified job := by
  obtain ⟨-, -, hmain, hwithin, hafter⟩ := checkDepth_eq_ok_iff.1 hcheck
  have hvisited := h.justified.modify (·.visited pc depth) (fun _ => rfl)
    (fun F hF => (h.justified.frames f F hF).visited hpc h.point)
  exact hvisited.modify (·.ranged (depth - i.descriptor.inputs) after) (fun _ => rfl)
    (fun F hF => (hvisited.frames f F hF).ranged hmain hwithin hafter)

/-- An expansion keeps a traversal justified, and ends it only for a reason that excuses it. -/
theorem justified_expand (h : Following job f pc depth known s) (hpc : pc < job.program.length)
    (hi : job.program.decode pc = .ok i) :
    Ensures (expand job f pc i depth known) s (fun on s' =>
      match on with
      | none => s'.Justified job
      | some on => Following job f (pc + 1 + on.width) on.depth on.constants s')
      (fun e _ => Excused job e) := by
  refine ensures_expand ?_ ?_
  · intro r hr hconsistent
    obtain ⟨j, _, _, hpass⟩ := hconsistent.passes h.point hpc
    have hj := hpass.decoded
    rw [hi] at hj
    cases hj
    have := hpass.depths
    rw [hr] at this
    cases this
  · intro after hcheck
    refine justified_dispatch (h.recorded hpc hcheck) ?_ h.point hpc hi hcheck
    exact (Frames.find?_modify_ne_none (·.ranged _ _) (fun _ => rfl) _ _ _).2
      ((Frames.find?_modify_ne_none (·.visited _ _) (fun _ => rfl) _ _ _).2 h.opened)

theorem Following.count (h : Following job f pc depth known s) :
    Following job f pc depth known { s with steps := s.steps + 1 } :=
  ⟨h.justified.count, h.point, h.opened⟩

/-- A visit keeps a traversal justified, and ends it only for a reason that excuses it. -/
theorem justified_visit (h : Following job f pc depth known s) (hpc : pc < job.program.length) :
    Ensures (visit job f pc depth known) s (fun on s' =>
      match on with
      | none => s'.Justified job
      | some on => Following job f (pc + 1 + on.width) on.depth on.constants s')
      (fun e _ => Excused job e) := by
  -- one case for each end of a visit; a refusal contradicts one clause of consistency
  refine ensures_visit ?_ ?_ ?_ ?_ (fun i hi _ => justified_expand h.count hpc hi)
  · intro _ _
    exact ⟨_, rfl, rfl⟩
  · intro r hr hconsistent
    obtain ⟨i, _, _, hpass⟩ := hconsistent.passes h.point hpc
    have := hpass.decoded
    rw [hr] at this
    cases this
  · intro _ _ _
    exact h.justified.count
  · intro i seen _ hseen hne hconsistent
    obtain ⟨F, hF, hat⟩ := Option.bind_eq_some_iff.1 hseen
    obtain ⟨_, known', hpoint⟩ := (h.justified.frames f F hF).points pc seen hat
    exact absurd (hconsistent.one_depth hpoint h.point hpc) hne

/-- A traversal starts with facts. -/
theorem justified_start (job : Job) : ({} : State).Justified job where
  nodup := by simp [Frames.ids]
  main := by simp [Frames.find?]
  opened := by simp [Frames.find?]
  frames g F hF := by
    by_cases hg : g = .main
    · subst hg
      obtain rfl : ({ id := .main } : Frame) = F := by simpa [Frames.find?] using hF
      exact Frame.Justified.fresh _ _
    · simp [Frames.find?, show ¬ FrameId.main = g from fun h => hg h.symm] at hF
  paths p hp := by
    obtain rfl : p = ⟨.main, 0, 0⟩ := by simpa using hp
    exact ⟨Reach.start, by simp [Frames.find?]⟩

end FlowCheck.Validator
