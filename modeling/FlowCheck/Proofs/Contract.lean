import FlowCheck.Proofs.Summaries

/-!
# The contract of an accepted program

What acceptance says about the facts of `Reach`, with no mention of frames: every instruction finds
its operands among the items that its frame has put on the stack or needs of its caller, every call
leaves its callee what that needs, and no frame rises above its peak.
-/

namespace FlowCheck.Validator

variable {job : Job} {fs : Frames} {f : FrameId} {pc : Nat} {depth : Int} {known : Constants}

/-- Needs and peaks that hold for every fact. -/
structure Contract (job : Job) (calls : FrameId → FrameId → Prop) (need peak : FrameId → Int) :
    Prop where
  consistent : Consistent job
  takes : ∀ {f pc depth known i after next}, Reach job (.point f pc depth known) →
    job.Passes f pc depth known i after next → -need f ≤ depth - i.descriptor.inputs
  shares : ∀ {f pc depth e}, Reach job (.call f pc depth e) → need (.entry e) - depth ≤ need f
  main : need .main = 0
  starts : ∀ {f pc depth known}, Reach job (.point f pc depth known) → 0 ≤ peak f
  rises : ∀ {f pc depth known i after next}, Reach job (.point f pc depth known) →
    job.Passes f pc depth known i after next → after ≤ peak f
  chains : ∀ {f pc depth e}, Reach job (.call f pc depth e) →
    ¬ Relation.ReflTransGen calls (.entry e) f → depth + peak (.entry e) ≤ peak f
  edge : ∀ {f pc depth e}, Reach job (.call f pc depth e) → calls f (.entry e)
  top : peak .main ≤ job.limit.floor

/-- A frame that starts with no items of its own needs no negative number of its caller's. -/
theorem Contract.need_nonneg {calls : FrameId → FrameId → Prop} {need peak : FrameId → Int}
    (hc : Contract job calls need peak) (hpc : pc < job.program.length)
    (hpoint : Reach job (.point f pc 0 known)) : 0 ≤ need f := by
  obtain ⟨i, after, next, hpass⟩ := hc.consistent.passes hpoint hpc
  have htakes := hc.takes hpoint hpass
  omega

namespace Traversed

/-- Only open frames reach anything. -/
theorem opened_of_point (h : Traversed job fs) (hpoint : Reach job (.point f pc depth known)) :
    fs.find? f ≠ none := by
  have hinside : ∀ {g pc' depth' known'}, Reach job (.point g pc' depth' known') →
      pc' < job.program.length → fs.find? g ≠ none := by
    intro g pc' depth' known' hg hpc
    have hat := (h.closed.holds hg).resolve_left (Nat.not_le.2 hpc)
    obtain ⟨F, hF, -⟩ := Option.bind_eq_some_iff.1 hat
    simp [hF]
  cases hpoint with
  | start => exact h.justified.main
  | fall hpoint hpass _ => exact hinside hpoint hpass.inside
  | jump hpoint hpass _ => exact hinside hpoint hpass.inside
  | enter hcall => exact h.opened_iff.2 ⟨_, _, _, hcall⟩
  | resume hcall _ _ =>
      obtain ⟨i, -, ⟨F, hF, -⟩, -⟩ := h.closed.holds hcall
      simp [hF]

/-- A call is recorded with both of its frames. -/
theorem site_of_call (h : Traversed job fs) {e : Nat} (hcall : Reach job (.call f pc depth e)) :
    ∃ site : CallSite, site.caller = f ∧ site.callee = e ∧ site.depth = depth ∧
      fs.HasCall site := by
  obtain ⟨i, -, hhas⟩ := h.closed.holds hcall
  exact ⟨_, rfl, rfl, rfl, hhas⟩

theorem contract {need : PerFrame Int} {heights : PerFrame Peak} (h : Traversed job fs)
    (hneeds : NeedsMet fs need) (hpeaks : PeaksMet fs heights)
    (htop : height heights .main ≤ job.limit.floor) :
    Contract job fs.Calls (fun f => need.getD f 0) (height heights) where
  consistent := h.consistent
  takes := by
    intro f pc depth known i after next hpoint hpass
    obtain ⟨j, _, _, hpass', ⟨F, hF, hlow, -⟩, -⟩ := h.closed.passes
      ((h.closed.holds hpoint).resolve_left (Nat.not_le.2 hpass.inside)) hpoint
    obtain rfl : j = i := by simpa [hpass.decoded] using hpass'.decoded.symm
    have hneed := hneeds.low f F hF
    omega
  shares := by
    intro f pc depth e hcall
    obtain ⟨site, rfl, rfl, rfl, -, F, hF, hsite⟩ := h.site_of_call hcall
    exact hneeds.calls _ F hF site hsite
  main := hneeds.main
  starts := by
    intro f pc depth known hpoint
    obtain ⟨F, hF⟩ := Option.ne_none_iff_exists'.1 (h.opened_of_point hpoint)
    exact Int.le_trans (h.justified.frames f F hF).high_nonneg (hpeaks.high f F hF)
  rises := by
    intro f pc depth known i after next hpoint hpass
    obtain ⟨j, after', _, hpass', ⟨F, hF, -, hhigh⟩, -⟩ := h.closed.passes
      ((h.closed.holds hpoint).resolve_left (Nat.not_le.2 hpass.inside)) hpoint
    obtain rfl : j = i := by simpa [hpass.decoded] using hpass'.decoded.symm
    obtain rfl : after' = after := by simpa [hpass.depths] using hpass'.depths.symm
    exact Int.le_trans hhigh (hpeaks.high f F hF)
  chains := by
    intro f pc depth e hcall hnot
    obtain ⟨site, rfl, rfl, rfl, ⟨F, hF, hsite⟩, -⟩ := h.site_of_call hcall
    exact hpeaks.calls _ F hF site hsite hnot
  edge := by
    intro f pc depth e hcall
    obtain ⟨site, rfl, rfl, -, ⟨F, hF, hsite⟩, -⟩ := h.site_of_call hcall
    exact ⟨F, hF, site, hsite, rfl⟩
  top := htop

end Traversed

/-- The summary of a frame, unless it is the main program. -/
def Frame.summary? (need peak : FrameId → Int) (F : Frame) : Option Summary :=
  match F.id with
  | .main => none
  | .entry pc => some ⟨pc, need F.id, F.net, peak F.id⟩

/-- The summaries are those of the open subroutines, one for each. -/
theorem mem_summaries_iff {need peak : FrameId → Int} {σ : Summary} (hnodup : fs.ids.Nodup) :
    σ ∈ fs.toList.filterMap (Frame.summary? need peak) ↔
      ∃ F, fs.find? (.entry σ.entry) = some F ∧
        σ = ⟨σ.entry, need (.entry σ.entry), F.net, peak (.entry σ.entry)⟩ := by
  rw [List.mem_filterMap]
  constructor
  · rintro ⟨F, hmem, hF⟩
    have hfind := Frames.find?_of_mem hnodup hmem
    unfold Frame.summary? at hF
    split at hF
    · cases hF
    · rename_i pc hid
      cases hF
      rw [hid] at hfind
      exact ⟨F, hfind, by rw [hid]⟩
  · rintro ⟨F, hF, hσ⟩
    refine ⟨F, Frames.mem_of_find? hF, ?_⟩
    simp only [Frame.summary?, Frames.find?_id hF]
    rw [← hσ]

theorem length_summaries (need peak : FrameId → Int) (hnodup : fs.ids.Nodup)
    (hmain : fs.find? .main ≠ none) :
    fs.size = (fs.toList.filterMap (Frame.summary? need peak)).length + 1 := by
  have hone : fs.ids.count .main = 1 :=
    List.count_eq_one_of_mem hnodup (Classical.not_not.1 (mt Frames.find?_eq_none_iff.2 hmain))
  -- every frame but the main program has a summary, for any list of frames
  have hrest : ∀ l : List Frame, l.length =
      (l.filterMap (Frame.summary? need peak)).length + (l.map Frame.id).count .main := by
    intro l
    induction l with
    | nil => rfl
    | cons F rest ih =>
        cases hid : F.id with
        | main => simp [Frame.summary?, hid, ih, Nat.add_assoc]
        | entry pc => simp [Frame.summary?, hid, ih, Nat.add_right_comm]
  rw [Frames.size, hrest, ← hone]
  rfl

/-- Frames are summarised exactly if their needs are found and the main program stays within the
limit. -/
theorem summarise_eq_ok_iff {limit : Amount} {subroutines : List Summary} :
    summarise limit fs = .ok subroutines ↔
      ∃ need, needs limit fs = .ok need ∧ height (peaks fs) .main ≤ limit.floor ∧
        fs.toList.filterMap (Frame.summary? (fun f => need.getD f 0) (height (peaks fs))) =
          subroutines := by
  have htop : (((peaks fs)[FrameId.main]?).getD ⟨0, none⟩).depth = height (peaks fs) .main := by
    unfold height
    cases (peaks fs)[FrameId.main]? <;> rfl
  unfold summarise
  cases needs limit fs with
  | error r => simp
  | ok need =>
      simp only [htop, Except.ok.injEq, exists_eq_left']
      split
      · rename_i habove
        constructor
        · intro h
          simp [refuseCall] at h
        · intro h
          exact absurd h.1 (Int.not_le.2 habove)
      · rename_i hwithin
        rw [Except.ok.injEq]
        exact ⟨fun h => ⟨Int.not_lt.1 hwithin, h⟩, fun h => h.2⟩

/-- A program is accepted exactly if its traversal ends well and its frames are summarised. -/
theorem validate_accepted_iff {report : Report} :
    validate job = .ok report ∧ report.verdict = .accepted ↔
      ∃ s subroutines, traverse job = .ok () s ∧ summarise job.limit s.frames = .ok subroutines ∧
        report = ⟨.accepted, subroutines, s.steps, s.frames.size⟩ := by
  unfold validate
  cases htraverse : traverse job with
  | error e s =>
      cases e with
      | uncountable => simp
      | rejected r =>
          constructor
          · rintro ⟨h, haccepted⟩
            cases h
            cases haccepted
          · rintro ⟨s', _, h, -⟩
            cases h
  | ok _ s =>
      cases hsummarise : summarise job.limit s.frames with
      | error r =>
          constructor
          · rintro ⟨h, haccepted⟩
            simp only [hsummarise, Except.ok.injEq] at h
            subst h
            cases haccepted
          · rintro ⟨s', _, h, h', -⟩
            cases h
            rw [hsummarise] at h'
            cases h'
      | ok subroutines =>
          simp only [hsummarise, Except.ok.injEq]
          constructor
          · rintro ⟨rfl, -⟩
            exact ⟨s, subroutines, rfl, hsummarise, rfl⟩
          · rintro ⟨s', subroutines', h, h', rfl⟩
            cases h
            rw [hsummarise] at h'
            cases h'
            exact ⟨rfl, rfl⟩

/-- An accepted program keeps a contract, and its summaries give it. -/
theorem contract_of_validate {report : Report} (h : validate job = .ok report)
    (haccepted : report.verdict = .accepted) :
    ∃ (s : State) (need peak : FrameId → Int), traverse job = .ok () s ∧
      Contract job s.frames.Calls need peak ∧
      report.subroutines = s.frames.toList.filterMap (Frame.summary? need peak) := by
  obtain ⟨s, subroutines, htraverse, hsummarise, rfl⟩ := validate_accepted_iff.1 ⟨h, haccepted⟩
  obtain ⟨need, hneeds, htop, rfl⟩ := summarise_eq_ok_iff.1 hsummarise
  have htraversed := traversed_of_traverse htraverse
  exact ⟨s, _, _, htraverse, htraversed.contract (needsMet_needs htraversed hneeds)
    (peaksMet_peaks htraversed.justified.nodup) htop, rfl⟩

end FlowCheck.Validator
