import FlowCheck.Proofs.Contract
import FlowCheck.Proofs.Runs
import FlowCheck.Proofs.TrackedSteps

/-!
# Runs follow the facts

A run of an accepted program is always at a point of `Reach`: the return stack is a chain of calls,
the height of the data stack is the depth of the point counted from the height at the entry of its
frame, and the constants known there are the items on top (`Tracks`).  One instruction leads from
such a state to another one (`Tracks.goto`), until the frame returns in which the chain starts.

The chain may start at any frame, so that the same argument serves a whole run and a single call.
-/

namespace FlowCheck.Validator

open Machine (Host Effect Failing Fails Targets Declared)

variable {job : Job} {host : Host} {calls : FrameId → FrameId → Prop} {need peak : FrameId → Int}
  {root f : FrameId} {bottom base depth : Int} {outer returns : List Nat} {keep : List Word}
  {known : Constants} {pc : Nat} {i : Instruction} {s s' : Machine.State}

/-- The machine runs the program and the table of a validation. -/
structure Job.RunsOn (job : Job) (host : Host) : Prop where
  program : host.program = job.program
  table : host.table = job.table

/-! ## Chains of calls -/

/-- A chain of calls from a root frame that was entered with so many items on the data stack: the
last frame, the height at its entry, and the resumption points, the last call first. -/
inductive Chain (job : Job) (root : FrameId) (bottom : Int) : FrameId → Int → List Nat → Prop
  | start : Chain job root bottom root bottom []
  | call {f : FrameId} {base depth : Int} {returns : List Nat} {pc callee : Nat} {i : Instruction}
      (hchain : Chain job root bottom f base returns)
      (hcall : Reach job (.call f pc depth callee)) (hdecoded : job.program.decode pc = .ok i) :
      Chain job root bottom (.entry callee) (base + depth) (i.next :: returns)

namespace Chain

/-- What lies below the needs of the root lies below the needs of every frame of the chain. -/
theorem need_le (h : Chain job root bottom f base returns) (hc : Contract job calls need peak) :
    bottom - need root ≤ base - need f := by
  induction h with
  | start => exact Int.le_refl _
  | call hchain hcall _ ih =>
      have := hc.shares hcall
      omega

theorem reaches (h : Chain job root bottom f base returns) (hc : Contract job calls need peak) :
    Relation.ReflTransGen calls root f := by
  induction h with
  | start => exact Relation.ReflTransGen.refl
  | call hchain hcall _ ih => exact ih.tail (hc.edge hcall)

/-- Without recursion, no frame of the chain rises above the peak of the root. -/
theorem peak_le (h : Chain job root bottom f base returns) (hc : Contract job calls need peak)
    (hacyclic : ∀ g, Relation.ReflTransGen calls root g → ¬ Relation.TransGen calls g g) :
    base + peak f ≤ bottom + peak root := by
  induction h with
  | start => exact Int.le_refl _
  | call hchain hcall _ ih =>
      have hback : ¬ Relation.ReflTransGen calls (.entry _) _ := fun hpath =>
        hacyclic _ (hchain.reaches hc) (Relation.TransGen.head' (hc.edge hcall) hpath)
      have := hc.chains hcall hback
      omega

/-- Without recursion, the frames of the chain differ. -/
theorem frames (h : Chain job root bottom f base returns) (hc : Contract job calls need peak)
    (hacyclic : ∀ g, Relation.ReflTransGen calls root g → ¬ Relation.TransGen calls g g) :
    ∃ callers : List FrameId, callers.length = returns.length ∧ callers.Nodup ∧
      ∀ g ∈ callers, Relation.TransGen calls g f := by
  induction h with
  | start => exact ⟨[], rfl, List.nodup_nil, by simp⟩
  | @call f base depth returns pc callee i hchain hcall _ ih =>
      obtain ⟨callers, hlength, hnodup, hcallers⟩ := ih
      have hedge := hc.edge hcall
      -- `f` is one of the callers now, and it is new among them, since else it would reach itself
      refine ⟨f :: callers, by simp [hlength], List.nodup_cons.2 ⟨fun hmem => ?_, hnodup⟩, ?_⟩
      · exact hacyclic _ (hchain.reaches hc) (hcallers _ hmem)
      · intro g hg
        rcases List.mem_cons.1 hg with rfl | hg
        · exact Relation.TransGen.single hedge
        · exact (hcallers g hg).tail hedge

end Chain

/-- Without recursion, no point of a frame is above its peak: a callee that returns leaves no more
than it rises to. -/
theorem Contract.depth_le (hc : Contract job calls need peak)
    (hacyclic : ¬ Relation.TransGen calls f f) (hpoint : Reach job (.point f pc depth known)) :
    depth ≤ peak f := by
  have hzero := hc.starts hpoint
  cases hpoint with
  | start => exact hzero
  | fall hpoint hpass _ => exact hc.rises hpoint hpass
  | jump hpoint hpass _ => exact hc.rises hpoint hpass
  | enter _ => exact hzero
  | resume hcall hret _ =>
      have hback : ¬ Relation.ReflTransGen calls (.entry _) _ := fun hpath =>
        hacyclic (Relation.TransGen.head' (hc.edge hcall) hpath)
      have hchain := hc.chains hcall hback
      cases hret with
      | ret hpoint hpass _ =>
          have := hc.rises hpoint hpass
          omega

/-! ## Targets -/

/-- A target that the table does not forbid is among those that the validation found. -/
theorem Job.targets_sound {marker : Marker} {ts : List Nat} {items : List Word} {w : Word}
    (h : job.targets i known marker = .ok ts) (hdescribes : known.Describes items)
    (hw : items.head? = some w)
    (hdeclared : job.table.hasSource i.pc = true → job.table.hasEdge i.pc w.toNat = true) :
    w.toNat ∈ ts := by
  rcases Job.targets_cases h with ⟨t, htop, rfl, -⟩ | ⟨-, rfl, hne, -⟩
  · rw [hdescribes.top htop hw]
    exact List.mem_singleton.2 rfl
  · have hsource := JumpTable.hasSource_of_targets_ne_nil hne
    exact JumpTable.hasEdge_iff_mem_targets.1 (hdeclared hsource)

/-- A target that is known from the code is not forbidden. -/
theorem Job.declared_of_known {marker : Marker} {ts : List Nat} {items : List Word} {w : Word}
    (h : job.targets i known marker = .ok ts) (hdescribes : known.Describes items)
    (hw : items.head? = some w) (hknown : known.top? ≠ none)
    (hsource : job.table.hasSource i.pc = true) : job.table.hasEdge i.pc w.toNat = true := by
  rcases Job.targets_cases h with ⟨t, htop, -, -, hallowed⟩ | ⟨htop, -⟩
  · rw [hdescribes.top htop hw]
    exact hallowed hsource
  · exact absurd htop hknown

/-- A callee that the table does not forbid is among those that the validation found. -/
theorem Job.callTargets_sound {ts : List Nat} {target : Nat}
    (h : job.callTargets i known = .ok ts) (hjob : job.RunsOn host)
    (hdescribes : known.Describes s.stack.items) (htarget : Targets host i s target) :
    target ∈ ts := by
  unfold Job.callTargets at h
  rcases htarget with himmediate | ⟨himmediate, w, hw, rfl, hdeclared⟩
  · simp only [himmediate] at h
    split at h
    · cases h
      exact List.mem_singleton.2 rfl
    · simp [refuse] at h
  · simp only [himmediate] at h
    rw [Declared, hjob.table] at hdeclared
    exact Job.targets_sound h hdescribes hw hdeclared

/-! ## Points -/

/-- A state of a run is at a point of the last frame of a chain of calls.  Below the chain lie the
resumption points `outer`, and below everything that its frames may touch the items `keep`. -/
structure Tracks (job : Job) (root : FrameId) (bottom : Int) (outer : List Nat) (keep : List Word)
    (f : FrameId) (base : Int) (returns : List Nat) (depth : Int) (known : Constants)
    (s : Machine.State) : Prop where
  chain : Chain job root bottom f base returns
  calls : s.calls.stack.items = returns ++ outer
  point : Reach job (.point f s.pc depth known)
  height : (s.stack.items.length : Int) = base + depth
  describes : known.Describes s.stack.items
  keeps : keep <:+ s.stack.items

namespace Tracks

variable {after : Int} {next : Successors}

/-- The instruction at a point passes the checks of the validation. -/
theorem passes (h : Tracks job root bottom outer keep f base returns depth known s)
    (hc : Contract job calls need peak) (hjob : job.RunsOn host)
    (hpc : s.pc < host.program.length) (hdecoded : host.program.decode s.pc = .ok i) :
    ∃ after next, job.Passes f s.pc depth known i after next := by
  rw [hjob.program] at hpc hdecoded
  obtain ⟨j, after, next, hpass⟩ := hc.consistent.passes h.point hpc
  obtain rfl : j = i := by simpa [hdecoded] using hpass.decoded.symm
  exact ⟨after, next, hpass⟩

/-- The operands of the instruction lie above what is kept. -/
theorem operands (h : Tracks job root bottom outer keep f base returns depth known s)
    (hc : Contract job calls need peak) (hkeep : (keep.length : Int) ≤ bottom - need root)
    (hpass : job.Passes f s.pc depth known i after next) :
    keep.length + i.descriptor.inputs ≤ s.stack.items.length := by
  have htakes := hc.takes h.point hpass
  have hneed := h.chain.need_le hc
  have hheight := h.height
  omega

theorem keeps_drop (h : Tracks job root bottom outer keep f base returns depth known s)
    (hc : Contract job calls need peak) (hkeep : (keep.length : Int) ≤ bottom - need root)
    (hpass : job.Passes f s.pc depth known i after next) {n : Nat}
    (hn : n ≤ i.descriptor.inputs) (new : List Word) : keep <:+ new ++ s.stack.items.drop n := by
  have hoperands := h.operands hc hkeep hpass
  refine List.IsSuffix.trans ?_ (List.suffix_append _ _)
  refine List.suffix_of_suffix_length_le h.keeps (List.drop_suffix _ _) ?_
  rw [List.length_drop]
  omega

/-- The height behind an instruction is the depth that the validation gives it. -/
theorem height_after {next' : Machine.Next}
    (h : Tracks job root bottom outer keep f base returns depth known s)
    (hpass : job.Passes f s.pc depth known i after next) (heffect : Effect host i s next' s') :
    (s'.stack.items.length : Int) = base + after := by
  have hrow := Program.decode_descriptor hpass.inside hpass.decoded
  obtain ⟨hinputs, new, hnew, hitems⟩ := heffect.items hrow
  have hafter := (checkDepth_eq_ok_iff.1 hpass.depths).2.1
  have hheight := h.height
  rw [hitems, List.length_append, List.length_drop, hnew, hafter, Descriptor.delta]
  omega

theorem keeps_after {next' : Machine.Next}
    (h : Tracks job root bottom outer keep f base returns depth known s)
    (hc : Contract job calls need peak) (hkeep : (keep.length : Int) ≤ bottom - need root)
    (hpass : job.Passes f s.pc depth known i after next) (heffect : Effect host i s next' s') :
    keep <:+ s'.stack.items := by
  have hrow := Program.decode_descriptor hpass.inside hpass.decoded
  obtain ⟨-, new, -, hitems⟩ := heffect.items hrow
  rw [hitems]
  exact h.keeps_drop hc hkeep hpass (Nat.le_refl _) new

/-- A return leaves the data stack as it is. -/
theorem returns_at (h : Tracks job root bottom outer keep f base returns depth known s)
    (hpass : job.Passes f s.pc depth known i after next)
    (hkind : i.descriptor.kind = .returnsub) : Reach job (.ret f depth) := by
  have hrow := Program.decode_descriptor hpass.inside hpass.decoded
  have hnext := Job.successors_cases hpass.targets
  simp only [hkind] at hnext
  have hdelta : i.descriptor.delta = 0 := by
    obtain ⟨houtputs, hinputs, -⟩ := Machine.row_of_control hrow (by simp [hkind]) (by simp [hkind])
    simp [Descriptor.delta, houtputs, hinputs (Or.inr hkind)]
  have hafter := (checkDepth_eq_ok_iff.1 hpass.depths).2.1
  rw [hdelta, Int.add_zero] at hafter
  subst hafter
  exact h.point.ret hpass (by rw [hnext])

/-- An instruction without calls and returns leads to another point of its frame. -/
theorem stay {next' : Machine.Next} {known' : Constants}
    (h : Tracks job root bottom outer keep f base returns depth known s)
    (hc : Contract job calls need peak) (hkeep : (keep.length : Int) ≤ bottom - need root)
    (hpass : job.Passes f s.pc depth known i after next) (heffect : Effect host i s next' s')
    (hcalls : s'.calls = s.calls) (hpoint : Reach job (.point f pc after known'))
    (hdescribes : known'.Describes s'.stack.items) :
    Tracks job root bottom outer keep f base returns after known' { s' with pc := pc } := by
  have hheight := h.height_after hpass heffect
  have hkeeps := h.keeps_after hc hkeep hpass heffect
  exact ⟨h.chain, hcalls ▸ h.calls, hpoint, hheight, hdescribes, hkeeps⟩

/-- A computing instruction leaves what the validation tracks across it. -/
theorem computed (h : Tracks job root bottom outer keep f base returns depth known s)
    (hpass : job.Passes f s.pc depth known i after next)
    (hkind : i.descriptor.kind = .plain ∨ i.descriptor.kind = .push)
    (hitems : Machine.Computes i s.stack.items s'.stack.items) :
    ∃ known', next.fall = some known' ∧ known'.Describes s'.stack.items :=
  describes_of_successors hpass.inside hpass.decoded hkind hpass.targets h.describes hitems

/-- A jump leads to a target that the validation follows. -/
theorem jumped {w : Word} (h : Tracks job root bottom outer keep f base returns depth known s)
    (hjob : job.RunsOn host) (hpass : job.Passes f s.pc depth known i after next)
    (hkind : i.descriptor.kind = .jump ∨ i.descriptor.kind = .jumpi)
    (hw : s.stack.items.head? = some w) (hdeclared : Declared host i w.toNat) :
    w.toNat ∈ next.jumps := by
  rw [Declared, hjob.table] at hdeclared
  have hnext := Job.successors_cases hpass.targets
  rcases hkind with hkind | hkind
  · simp only [hkind] at hnext
    obtain ⟨ts, hts, rfl⟩ := hnext
    exact Job.targets_sound hts h.describes hw hdeclared
  · simp only [hkind] at hnext
    obtain ⟨ts, hts, rfl⟩ := hnext
    exact Job.targets_sound hts h.describes hw hdeclared

/-- A call is one that the validation follows. -/
theorem called {target : Nat}
    (h : Tracks job root bottom outer keep f base returns depth known s)
    (hjob : job.RunsOn host) (hpass : job.Passes f s.pc depth known i after next)
    (hkind : i.descriptor.kind = .jumpsub) (htarget : Targets host i s target) :
    Reach job (.call f s.pc after target) := by
  have hnext := Job.successors_cases hpass.targets
  simp only [hkind] at hnext
  obtain ⟨ts, hts, rfl⟩ := hnext
  exact h.point.call hpass (Job.callTargets_sound hts hjob h.describes htarget)

/-- One instruction leads from a point to another, unless it returns from the root of the chain. -/
theorem goto (h : Tracks job root bottom outer keep f base returns depth known s)
    (hc : Contract job calls need peak) (hjob : job.RunsOn host)
    (hkeep : (keep.length : Int) ≤ bottom - need root)
    (hpass : job.Passes f s.pc depth known i after next)
    (heffect : Effect host i s (.goto pc) s') :
    (∃ f' base' returns' depth' known',
      Tracks job root bottom outer keep f' base' returns' depth' known' { s' with pc := pc }) ∨
    (i.descriptor.kind = .returnsub ∧ f = root ∧ outer = pc :: s'.calls.stack.items) := by
  have hrow := Program.decode_descriptor hpass.inside hpass.decoded
  -- what is left for instructions that neither call nor return
  have hstay : ∀ {known'}, s'.calls = s.calls → Reach job (.point f pc after known') →
      known'.Describes s'.stack.items → ∃ f' base' returns' depth' known',
        Tracks job root bottom outer keep f' base' returns' depth' known' { s' with pc := pc } :=
    fun hcalls hpoint hdescribes =>
      ⟨_, _, _, _, _, h.stay hc hkeep hpass heffect hcalls hpoint hdescribes⟩
  have hheight := h.height_after hpass heffect
  have hkeeps := h.keeps_after hc hkeep hpass heffect
  cases heffect with
  | computed hkind hitems hcalls =>
      obtain ⟨known', hfall, hdescribes⟩ := h.computed hpass hkind hitems
      exact Or.inl (hstay hcalls (h.point.fall hpass hfall) hdescribes)
  | began hkind hitems hcalls =>
      have hnext := Job.successors_cases hpass.targets
      simp only [hkind] at hnext
      exact Or.inl (hstay hcalls (h.point.fall hpass (by rw [hnext])) (Constants.describes_nil _))
  | jumped hkind htop hdeclared hmarker htakes hcalls =>
      have htarget := h.jumped hjob hpass hkind htop hdeclared
      exact Or.inl (hstay hcalls (h.point.jump hpass htarget) (Constants.describes_nil _))
  | fell hkind htakes hcalls =>
      have hnext := Job.successors_cases hpass.targets
      simp only [hkind] at hnext
      obtain ⟨ts, -, rfl⟩ := hnext
      have hinputs : i.descriptor.inputs = 2 :=
        (Machine.row_of_control hrow (by simp [hkind]) (by simp [hkind])).2.2 hkind
      refine Or.inl (hstay hcalls (h.point.fall hpass rfl) ?_)
      rw [htakes.2, hinputs]
      exact h.describes.drop 2
  | called hkind htarget hentry htakes hcalls hroom =>
      have hcall := h.called hjob hpass hkind htarget
      -- the chain grows by the call, and the items now on the stack are the base of the callee
      refine Or.inl ⟨_, _, _, 0, [], h.chain.call hcall hpass.decoded, ?_, hcall.enter, ?_,
        Constants.describes_nil _, hkeeps⟩
      · simp [hcalls, ReturnStack.push, h.calls]
      · simpa using hheight
  | returned hkind hpop hitems =>
      have hret := h.returns_at hpass hkind
      have hcalls := h.calls
      have hpopped := (Machine.calls_of_pop? hpop).symm.trans hcalls
      -- a return from the root leaves the chain, any other one takes its last call away
      cases h.chain with
      | start => exact Or.inr ⟨hkind, rfl, hpopped.symm⟩
      | call hchain hcall hdecoded =>
          obtain ⟨rfl, hrest⟩ := List.cons.inj hpopped
          refine Or.inl ⟨_, _, _, _, [], hchain, hrest, hcall.resume hret hdecoded, ?_,
            Constants.describes_nil _, hkeeps⟩
          have hbefore := h.height
          rw [← hitems] at hbefore
          simp only
          omega

/-- A target that the table forbids was not known from the code. -/
theorem undeclared {w : Word}
    (h : Tracks job root bottom outer keep f base returns depth known s) (hjob : job.RunsOn host)
    (hpass : job.Passes f s.pc depth known i after next) (hsite : Machine.TakesTarget i)
    (hw : s.stack.items.head? = some w) (hsource : host.table.hasSource i.pc = true)
    (hedge : host.table.hasEdge i.pc w.toNat = false) : known.top? = none := by
  rw [hjob.table] at hsource hedge
  -- every site that takes its target from the stack asks for targets in the same way
  obtain ⟨marker, ts, hts⟩ : ∃ marker ts, job.targets i known marker = .ok ts := by
    have hnext := Job.successors_cases hpass.targets
    obtain ⟨himmediate, hkind | hkind | hkind⟩ := hsite
    · simp only [hkind] at hnext
      obtain ⟨ts, hts, -⟩ := hnext
      exact ⟨_, ts, hts⟩
    · simp only [hkind] at hnext
      obtain ⟨ts, hts, -⟩ := hnext
      exact ⟨_, ts, hts⟩
    · simp only [hkind, Job.callTargets, himmediate] at hnext
      obtain ⟨ts, hts, -⟩ := hnext
      exact ⟨_, ts, hts⟩
  by_contra hknown
  have := Job.declared_of_known hts h.describes hw hknown hsource
  rw [hedge] at this
  cases this

end Tracks

/-- The faults that acceptance leaves possible at a point. -/
inductive Admitted (host : Host) (i : Instruction) (s : Machine.State) (known : Constants) :
    Fault → Prop
  | full {e : Fault} (hkind : e.cause.kind = .stackOverflow)
      (hfull : host.stackLimit.ceil < s.stack.items.length + i.descriptor.delta) :
      Admitted host i s known e
  | memory {e : Fault} (hkind : e.cause.kind = .memoryLimitExceeded) : Admitted host i s known e
  | unsupported {e : Fault} (hkind : e.cause.kind = .unsupportedInstruction) :
      Admitted host i s known e
  | returnsFull {target : Nat} (hkind : i.descriptor.kind = .jumpsub)
      (htarget : Targets host i s target)
      (hfull : host.returnLimit.ceil ≤ s.calls.stack.height) :
      Admitted host i s known (Machine.faultAt i (.returnStackFull host.returnLimit))
  | undeclared {w : Word} (hsite : Machine.TakesTarget i) (hw : s.stack.items.head? = some w)
      (hsource : host.table.hasSource i.pc = true)
      (hedge : host.table.hasEdge i.pc w.toNat = false) (hunknown : known.top? = none) :
      Admitted host i s known (Machine.faultAt i (.undeclaredEdge i.pc w.toNat))

/-- Nothing else can be wrong at a point of a run. -/
theorem Tracks.admitted {e : Fault} {after : Int} {next : Successors}
    (h : Tracks job .main bottom outer keep f base returns depth known s)
    (hc : Contract job calls need peak) (hjob : job.RunsOn host)
    (hkeep : (keep.length : Int) ≤ bottom - need .main)
    (hpass : job.Passes f s.pc depth known i after next) (hfailing : Failing host i s e) :
    Admitted host i s known e := by
  cases hfailing with
  | short hkind hshort =>
      have hoperands := h.operands hc hkeep hpass
      omega
  | full hkind hfull => exact .full hkind hfull
  | memory hkind => exact .memory hkind
  | unsupported hkind => exact .unsupported hkind
  | undeclared hsite htop hsource hedge =>
      exact .undeclared hsite htop hsource hedge
        (h.undeclared hjob hpass hsite htop hsource hedge)
  | notJumpdest hkind htop hdeclared hmarker =>
      -- the validation follows the jump, and it follows jumps to their markers only
      have htarget := h.jumped hjob hpass hkind htop hdeclared
      have hmark := Job.successors_jumps hpass.targets htarget
      rw [← hjob.program] at hmark
      exact absurd hmark (by simpa [Program.hasMarker] using hmarker)
  | notEntry hkind htarget hentry =>
      have hmark := (h.called hjob hpass hkind htarget).of_call.2.1
      rw [← hjob.program] at hmark
      exact absurd hmark (by simpa [Program.hasMarker] using hentry)
  | returnsFull hkind htarget hfull => exact .returnsFull hkind htarget hfull
  | returnsEmpty hkind hempty =>
      -- nothing is pending, so the frame is the main program, and that does not return
      have hret := h.returns_at hpass hkind
      have hcalls := h.calls
      rw [hempty] at hcalls
      obtain ⟨hreturns, -⟩ := List.append_eq_nil_iff.1 hcalls.symm
      cases h.chain with
      | start => exact absurd hret hc.consistent.no_stray
      | call _ _ _ => cases hreturns

/-! ## Runs -/

/-- A state is at some point of a chain of calls. -/
def Follows (job : Job) (root : FrameId) (bottom : Int) (outer : List Nat) (keep : List Word)
    (s : Machine.State) : Prop :=
  ∃ f base returns depth known, Tracks job root bottom outer keep f base returns depth known s

/-- Counting a step moves no point. -/
theorem Tracks.tick (h : Tracks job root bottom outer keep f base returns depth known s) (n : Nat) :
    Tracks job root bottom outer keep f base returns depth known { s with steps := n } :=
  ⟨h.chain, h.calls, h.point, h.height, h.describes, h.keeps⟩

theorem Follows.advances (h : Follows job root bottom outer keep s)
    (hc : Contract job calls need peak) (hjob : job.RunsOn host)
    (hkeep : (keep.length : Int) ≤ bottom - need root) (hadvance : Machine.Advances host s s') :
    Follows job root bottom outer keep s' ∨
      (outer.length = s'.calls.stack.items.length + 1 ∧ ∃ depth, Reach job (.ret root depth)) := by
  obtain ⟨f, base, returns, depth, known, htracks⟩ := h
  obtain ⟨pc, s₁, hleaves, rfl⟩ := hadvance
  obtain ⟨i, hpc, hdecoded, heffect⟩ := hleaves.effect
  obtain ⟨after, next, hpass⟩ := htracks.passes hc hjob hpc hdecoded
  rcases (htracks.tick (s.steps + 1)).goto hc hjob hkeep hpass heffect with
    hnext | ⟨hkind, rfl, houter⟩
  · exact Or.inl hnext
  · exact Or.inr ⟨by simp [houter], depth, htracks.returns_at hpass hkind⟩

/-- A run of an accepted program follows the facts of its validation. -/
theorem follows_of_reachable (hc : Contract job calls need peak) (hjob : job.RunsOn host)
    (hs : Machine.Reachable host s) : Follows job .main 0 [] [] s := by
  induction hs with
  | refl =>
      exact ⟨_, _, _, 0, [], Chain.start, rfl, Reach.start, rfl, Constants.describes_nil _,
        List.nil_suffix⟩
  | tail _ hadvance ih =>
      -- the main program needs nothing from below, so there is nothing to keep
      have hkeep : (([] : List Word).length : Int) ≤ 0 - need .main := by simp [hc.main]
      rcases ih.advances hc hjob hkeep hadvance with hnext | ⟨-, depth, hret⟩
      · exact hnext
      · exact absurd hret hc.consistent.no_stray

end FlowCheck.Validator
