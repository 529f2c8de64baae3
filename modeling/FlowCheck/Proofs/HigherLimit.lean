import FlowCheck.Proofs.LeastNeeds

/-!
# Higher limits

The limit of a validation bounds the depths of a program, and it also cuts what is known about the
top of the stack.  So a higher limit could know the target of a jump that a lower one looks up in
the table, and refuse it.

Without recursion this does not happen, because nothing is ever cut: what is known in a frame lies
within the items that the frame needs and those that it has put on the stack, and these are within
the limit together (`Contract.within`).  Every part of a traversal that comes to its end is then
repeated under a higher limit (`Repeats`), and so are the needs of the frames.
-/

namespace FlowCheck

/-! ## What is known behind an instruction -/

theorem Amount.floor_of_count? {a : Amount} {n : Int} (h : a.count? = some n) : a.floor = n := by
  cases a with
  | whole m => simpa [count?] using h
  | flag b => simpa [count?, floor] using h
  | real x => simp [count?] at h

/-- A push adds one item, and a conditional jump takes two. -/
theorem OperandMode.delta_of_kind (mode : OperandMode) (op : Opcode) :
    ((mode.describe op).kind = .push → (mode.describe op).delta = 1) ∧
      ((mode.describe op).kind = .jumpi → (mode.describe op).delta = -2) := by
  cases op <;> cases mode <;> simp [describe, Descriptor.delta]

namespace Validator

variable {job : Job} {fs : Frames} {f : FrameId} {pc : Nat} {depth after : Int}
  {known : Constants} {i : Instruction} {next : Successors} {site : CallSite} {s : State}
  {limit limit' : Amount} {α β : Type}

theorem Constants.length_swap (known : Constants) (n : Nat) :
    (known.swap n).length = max known.length (n + 2) := by
  have hfilled : (known ++ List.replicate (n + 2 - known.length) none).length =
      max known.length (n + 2) := by
    rw [List.length_append, List.length_replicate]
    omega
  unfold Constants.swap
  dsimp only
  split
  · rw [List.length_set, List.length_set, hfilled]
  · exact hfilled

/-- What is known behind an instruction that goes on, before it is cut. -/
def Constants.uncut (i : Instruction) (known : Constants) : Constants :=
  match i.descriptor.kind with
  | .push => known.afterPush i.immediate
  | .plain => if i.opcode = .jumpdest then [] else known.afterPlain i.descriptor
  | .jumpi => known.drop 2
  | .jump | .beginsub | .jumpsub | .returnsub | .terminal => []

/-- A plain instruction tells no more than there is room for, if there is room for its operands. -/
theorem Constants.length_afterPlain_le {mode : OperandMode} {room : Int}
    (hrow : i.descriptor = mode.describe i.opcode) (hknown : (known.length : Int) ≤ room)
    (hinputs : (i.descriptor.inputs : Int) ≤ room) :
    ((known.afterPlain i.descriptor).length : Int) ≤ room + i.descriptor.delta := by
  unfold Constants.afterPlain
  split
  · rename_i n hop
    have hdelta : i.descriptor.delta = 1 := by
      rw [hrow, show i.opcode = .dup n from hop]
      simp only [Descriptor.delta, OperandMode.describe]
      omega
    rw [hdelta, List.length_cons]
    omega
  · rename_i n hop
    have hrow' : i.descriptor = ⟨.swap n, 0, n.val + 2, n.val + 2, .plain⟩ := by
      rw [hrow, show i.opcode = .swap n from hop]
      rfl
    rw [hrow'] at hinputs ⊢
    simp only at hinputs
    rw [Constants.length_swap]
    simp only [Descriptor.delta]
    omega
  · rw [List.length_append, List.length_replicate, List.length_drop, Descriptor.delta]
    omega

theorem Constants.length_uncut_le {mode : OperandMode} {room : Int}
    (hrow : i.descriptor = mode.describe i.opcode) (hknown : (known.length : Int) ≤ room)
    (hinputs : (i.descriptor.inputs : Int) ≤ room) :
    ((known.uncut i).length : Int) ≤ room + i.descriptor.delta := by
  have hnothing : (0 : Int) ≤ room + i.descriptor.delta := by
    rw [Descriptor.delta]
    omega
  unfold Constants.uncut
  cases hkind : i.descriptor.kind with
  | push =>
      have hdelta : i.descriptor.delta = 1 := by
        rw [hrow] at hkind ⊢
        exact (OperandMode.delta_of_kind mode _).1 hkind
      rw [hdelta]
      simp only [Constants.afterPush, List.length_cons]
      omega
  | plain =>
      simp only
      split
      · exact hnothing
      · exact Constants.length_afterPlain_le hrow hknown hinputs
  | jumpi =>
      have hdelta : i.descriptor.delta = -2 := by
        rw [hrow] at hkind ⊢
        exact (OperandMode.delta_of_kind mode _).2 hkind
      rw [hdelta] at hnothing ⊢
      simp only [List.length_drop]
      omega
  | jump | beginsub | jumpsub | returnsub | terminal => exact hnothing

theorem Job.length_le_of_cut? {k k' : Constants} (h : job.cut? k = .ok k') :
    k'.length ≤ k.length := by
  unfold Job.cut? at h
  split at h
  · cases h
    exact List.length_take_le' _ _
  · cases h

/-- A cut only ever takes away. -/
theorem Job.length_fall_le {k : Constants} (h : job.successors i known = .ok next)
    (hfall : next.fall = some k) : k.length ≤ (known.uncut i).length := by
  have hcases := Job.successors_cases h
  unfold Constants.uncut
  cases hkind : i.descriptor.kind <;> simp only [hkind] at hcases ⊢
  case push =>
    obtain ⟨k', hcut, rfl⟩ := hcases
    cases hfall
    exact Job.length_le_of_cut? hcut
  case plain =>
    rcases hcases with ⟨hop, rfl⟩ | ⟨hop, k', hcut, rfl⟩
    · cases hfall
      exact Nat.zero_le _
    · cases hfall
      rw [if_neg hop]
      exact Job.length_le_of_cut? hcut
  case jumpi =>
    obtain ⟨ts, -, rfl⟩ := hcases
    cases hfall
    exact Nat.le_refl _
  case jump | jumpsub =>
    obtain ⟨ts, -, rfl⟩ := hcases
    cases hfall
  all_goals
    subst hcases
    cases hfall
  exact Nat.zero_le _

/-! ## Limits that cut nothing -/

/-- The job with another limit. -/
def Job.withLimit (job : Job) (limit : Amount) : Job :=
  { job with limit := limit }

theorem Job.cut?_withLimit {k k' : Constants} (hcount : limit.count? ≠ none)
    (hraised : job.limit.floor ≤ limit.floor) (hlength : (k.length : Int) ≤ job.limit.floor)
    (h : job.cut? k = .ok k') : (job.withLimit limit).cut? k = .ok k' := by
  obtain ⟨n, hn⟩ := Option.ne_none_iff_exists'.1 hcount
  have hfloor := Amount.floor_of_count? hn
  unfold Job.cut? at h
  split at h
  · rename_i m hm
    have hfloor' := Amount.floor_of_count? hm
    cases h
    have hwhole : k.take m.toNat = k := List.take_of_length_le (by omega)
    have hwhole' : k.take n.toNat = k := List.take_of_length_le (by omega)
    simp only [Job.cut?, Job.withLimit, hn]
    rw [hwhole, hwhole']
  · cases h

/-- Where nothing is cut, a higher limit leaves the successors of an instruction as they are. -/
theorem Job.successors_withLimit (hcount : limit.count? ≠ none)
    (hraised : job.limit.floor ≤ limit.floor)
    (hlength : ((known.uncut i).length : Int) ≤ job.limit.floor)
    (h : job.successors i known = .ok next) :
    (job.withLimit limit).successors i known = .ok next := by
  have hcases := Job.successors_cases h
  unfold Constants.uncut at hlength
  cases hkind : i.descriptor.kind <;> simp only [hkind] at hcases hlength
  case push =>
    obtain ⟨k, hcut, rfl⟩ := hcases
    simp only [Job.successors, hkind, Job.cut?_withLimit hcount hraised hlength hcut]
    rfl
  case plain =>
    rcases hcases with ⟨hop, rfl⟩ | ⟨hop, k, hcut, rfl⟩
    · simp only [Job.successors, hkind, hop, if_true]
    · rw [if_neg hop] at hlength
      simp only [Job.successors, hkind, hop, if_false,
        Job.cut?_withLimit hcount hraised hlength hcut]
      rfl
  -- the other kinds do not look at the limit
  all_goals
    simp only [Job.successors, hkind] at h ⊢
    exact h

section Contract

variable {calls : FrameId → FrameId → Prop} {need peak : FrameId → Int}

/-- What a frame needs and rises to is within the limit, and so is what is known in it: there is an
item for every constant among those that the frame needs or has put on the stack. -/
def Fact.Within (need peak : FrameId → Int) (limit : Int) : Fact → Prop
  | .point f _ depth known => need f + peak f ≤ limit ∧ (known.length : Int) ≤ depth + need f
  | .call f _ _ _ => need f + peak f ≤ limit
  | .ret f _ => need f + peak f ≤ limit

theorem Contract.length_uncut_le (hc : Contract job calls need peak)
    (hpoint : Reach job (.point f pc depth known))
    (hpass : job.Passes f pc depth known i after next)
    (hknown : (known.length : Int) ≤ depth + need f) :
    ((known.uncut i).length : Int) ≤ after + need f := by
  have htakes := hc.takes hpoint hpass
  have hle := Constants.length_uncut_le (Program.decode_descriptor hpass.inside hpass.decoded)
    hknown (by omega)
  obtain ⟨-, hafter, -⟩ := checkDepth_eq_ok_iff.1 hpass.depths
  omega

/-- An instruction leaves its frame above the items that it does not need. -/
theorem Contract.after_ge (hc : Contract job calls need peak)
    (hpoint : Reach job (.point f pc depth known))
    (hpass : job.Passes f pc depth known i after next) : 0 ≤ after + need f := by
  have htakes := hc.takes hpoint hpass
  obtain ⟨-, hafter, -⟩ := checkDepth_eq_ok_iff.1 hpass.depths
  rw [Descriptor.delta] at hafter
  omega

/-- Without recursion, every fact is within the limit.  Along a call the callee needs no more than
the caller can give and rises no higher than the caller's peak, so the sum does not grow. -/
theorem Contract.within (hc : Contract job calls need peak)
    (hacyclic : ∀ g, ¬ Relation.TransGen calls g g) {fact : Fact} (h : Reach job fact) :
    fact.Within need peak job.limit.floor := by
  induction h with
  | start =>
      have htop := hc.top
      have hmain := hc.main
      have hroom : (0 : Int) ≤ 0 + need .main := by omega
      exact ⟨by omega, hroom⟩
  | fall hpoint hpass hfall ih =>
      obtain ⟨hsum, hknown⟩ := ih
      have hle := Job.length_fall_le hpass.targets hfall
      have huncut := hc.length_uncut_le hpoint hpass hknown
      exact ⟨hsum, by omega⟩
  | jump hpoint hpass _ ih => exact ⟨ih.1, hc.after_ge hpoint hpass⟩
  | call _ _ _ ih => exact ih.1
  | @enter f _ callee depth hcall ih =>
      have hnonneg := hc.need_nonneg (Program.decode_of_hasMarker hcall.of_call.2.1).1 hcall.enter
      have hback : ¬ Relation.ReflTransGen calls (.entry callee) f := fun hpath =>
        hacyclic f (Relation.TransGen.head' (hc.edge hcall) hpath)
      have hshares := hc.shares hcall
      have hchains := hc.chains hcall hback
      have hsum : need f + peak f ≤ job.limit.floor := ih
      have hroom : (0 : Int) ≤ 0 + need (.entry callee) := by omega
      exact ⟨by omega, hroom⟩
  | ret _ _ _ ih => exact ih.1
  | @resume f _ callee depth net _ hcall hret _ ih _ =>
      have hshares := hc.shares hcall
      cases hret with
      | ret hpoint hpass _ =>
          have hreturned := hc.after_ge hpoint hpass
          have hroom : 0 ≤ depth + net + need f := by omega
          exact ⟨ih, hroom⟩

/-- A limit that is no lower, and under which every instruction that is reached has the same
successors. -/
structure Job.RaisesTo (job : Job) (limit : Amount) : Prop where
  le : job.limit.floor ≤ limit.floor
  successors : ∀ {f pc depth known i after next}, Reach job (.point f pc depth known) →
    job.Passes f pc depth known i after next →
      (job.withLimit limit).successors i known = .ok next

/-- Without recursion, every limit that is no lower is of this kind. -/
theorem Contract.raisesTo (hc : Contract job calls need peak)
    (hacyclic : ∀ g, ¬ Relation.TransGen calls g g) (hcount : limit.count? ≠ none)
    (hraised : job.limit.floor ≤ limit.floor) : job.RaisesTo limit where
  le := hraised
  successors hpoint hpass := by
    obtain ⟨hsum, hknown⟩ := hc.within hacyclic hpoint
    have huncut := hc.length_uncut_le hpoint hpass hknown
    have hrises := hc.rises hpoint hpass
    exact Job.successors_withLimit hcount hraised (by omega) hpass.targets

end Contract

/-! ## Traversals -/

/-- If the first computation comes to its end, the second one ends alike. -/
def Repeats (m m' : Walk α) (s : State) : Prop :=
  ∀ a s', m.run s = .ok a s' → m'.run s = .ok a s'

namespace Repeats

theorem refl (m : Walk α) : Repeats m m s :=
  fun _ _ h => h

theorem of_throw {e : Halt} {m' : Walk α} : Repeats (throw e) m' s :=
  fun _ _ h => nomatch h

theorem of_get {k k' : State → Walk α} (h : Repeats (k s) (k' s) s) :
    Repeats (get >>= k) (get >>= k') s := h

theorem of_bind {m m' : Walk α} {k k' : α → Walk β} (hm : Repeats m m' s)
    (hk : ∀ a s', m.run s = .ok a s' → Repeats (k a) (k' a) s') :
    Repeats (m >>= k) (m' >>= k') s := by
  intro b s'' h
  rw [EStateM.run_bind] at h ⊢
  cases hrun : m.run s with
  | ok a s' =>
      rw [hrun] at h
      rw [hm a s' hrun]
      exact hk a s' hrun b s'' h
  | error e s' =>
      rw [hrun] at h
      cases h

theorem of_require {check check' : Except Rejection α} {k k' : α → Walk β}
    (h : ∀ a, check = .ok a → check' = .ok a ∧ Repeats (k a) (k' a) s) :
    Repeats (require check >>= k) (require check' >>= k') s := by
  cases check with
  | error r => exact of_throw
  | ok a =>
      obtain ⟨hcheck, hk⟩ := h a rfl
      rw [hcheck]
      exact hk

theorem of_forM {g g' : β → Walk PUnit} (l : List β) (h : ∀ b ∈ l, ∀ s, Repeats (g b) (g' b) s) :
    Repeats (l.forM g) (l.forM g') s := by
  induction l generalizing s with
  | nil => exact refl _
  | cons b rest ih =>
      exact of_bind (h b (List.mem_cons_self ..) s)
        (fun _ _ _ => ih (fun c hc => h c (List.mem_cons_of_mem _ hc)))

end Repeats

theorem repeats_resume (hraised : job.limit.floor ≤ limit.floor) (net : Int) :
    Repeats (resume job site net) (resume (job.withLimit limit) site net) s := by
  unfold resume
  dsimp only
  by_cases hbelow : site.caller = .main ∧ site.depth + net < 0
  · rw [if_pos hbelow]
    exact Repeats.of_throw
  rw [if_neg hbelow, if_neg hbelow]
  by_cases hover : job.limit.floor < site.depth + net
  · rw [if_pos hover]
    exact Repeats.of_throw
  · have hwithin : ¬ limit.floor < site.depth + net := by omega
    rw [if_neg hover, show (job.withLimit limit).limit = limit from rfl, if_neg hwithin]
    exact Repeats.refl _

theorem repeats_call (hraised : job.limit.floor ≤ limit.floor) (target : Nat) :
    Repeats (call job f i depth target) (call (job.withLimit limit) f i depth target) s := by
  unfold call
  refine Repeats.of_bind (Repeats.refl _) (fun _ _ _ => ?_)
  refine Repeats.of_bind (Repeats.refl _) (fun _ _ _ => ?_)
  refine Repeats.of_bind (Repeats.refl _) (fun _ s' _ => Repeats.of_get ?_)
  cases (s'.frames.find? (.entry target)).bind Frame.net with
  | none => exact Repeats.refl _
  | some net => exact repeats_resume hraised net

theorem repeats_returnFrom (hraised : job.limit.floor ≤ limit.floor) :
    Repeats (returnFrom job f i depth) (returnFrom (job.withLimit limit) f i depth) s := by
  unfold returnFrom
  split
  · exact Repeats.refl _
  · refine Repeats.of_get ?_
    cases s.frames.find? f with
    | none => exact Repeats.refl _
    | some F =>
        simp only
        cases F.net with
        | some net => exact Repeats.refl _
        | none =>
            exact Repeats.of_bind (Repeats.refl _) (fun _ _ _ =>
              Repeats.of_forM _ (fun site _ _ => repeats_resume hraised depth))

theorem repeats_dispatch (h : job.RaisesTo limit) (hpoint : Reach job (.point f pc depth known))
    (hpc : pc < job.program.length) (hdecoded : job.program.decode pc = .ok i)
    (hdepth : job.checkDepth f i depth = .ok (depth - i.descriptor.inputs, after)) :
    Repeats (dispatch job f i after known) (dispatch (job.withLimit limit) f i after known) s := by
  rw [dispatch_eq, dispatch_eq]
  cases hnext : job.successors i known with
  | error e => exact Repeats.of_throw
  | ok next =>
      rw [h.successors hpoint ⟨hpc, hdecoded, hdepth, hnext⟩]
      refine Repeats.of_bind (Repeats.refl _) (fun _ _ _ => ?_)
      refine Repeats.of_bind (Repeats.of_forM _ (fun t _ _ => repeats_call h.le t))
        (fun _ _ _ => ?_)
      cases next.returns with
      | true => exact Repeats.of_bind (repeats_returnFrom h.le) (fun _ _ _ => Repeats.refl _)
      | false => exact Repeats.refl _

theorem checkDepth_withLimit {low : Int} (hraised : job.limit.floor ≤ limit.floor)
    (h : job.checkDepth f i depth = .ok (low, after)) :
    (job.withLimit limit).checkDepth f i depth = .ok (low, after) := by
  obtain ⟨hlow, hafter, hmain, hneed, hover⟩ := checkDepth_eq_ok_iff.1 h
  exact checkDepth_eq_ok_iff.2
    ⟨hlow, hafter, hmain, Int.le_trans hneed hraised, Int.le_trans hover hraised⟩

theorem repeats_visit (h : job.RaisesTo limit) (hpoint : Reach job (.point f pc depth known))
    (hpc : pc < job.program.length) :
    Repeats (visit job f pc depth known) (visit (job.withLimit limit) f pc depth known) s := by
  unfold visit
  refine Repeats.of_bind (Repeats.refl _) (fun _ s' _ => Repeats.of_require (fun i hi => ?_))
  refine ⟨hi, Repeats.of_get ?_⟩
  cases (s'.frames.find? f).bind (fun F => F.depths[pc]?) with
  | some seen => exact Repeats.refl _
  | none =>
      unfold expand
      refine Repeats.of_bind (Repeats.refl _) (fun _ _ _ => Repeats.of_require ?_)
      rintro ⟨low, after⟩ hcheck
      obtain rfl := (checkDepth_eq_ok_iff.1 hcheck).1
      exact ⟨checkDepth_withLimit h.le hcheck, Repeats.of_bind (Repeats.refl _)
        (fun _ _ _ => repeats_dispatch h hpoint hpc hi hcheck)⟩

theorem repeats_follow (h : job.RaisesTo limit) (hfollowing : Following job f pc depth known s) :
    Repeats (follow job f pc depth known) (follow (job.withLimit limit) f pc depth known) s := by
  induction pc, depth, known using follow.induct job generalizing s with
  | case1 pc depth known hpc ih =>
      have hpc' : pc < (job.withLimit limit).program.length := hpc
      rw [follow, if_pos hpc, follow, if_pos hpc']
      refine Repeats.of_bind (repeats_visit h hfollowing.point hpc) (fun on s' hrun => ?_)
      have hbehind := (justified_visit hfollowing hpc).of_ok hrun
      cases on with
      | none => exact Repeats.refl _
      | some on => exact ih on hbehind
  | case2 pc depth known hpc =>
      have hpc' : ¬ pc < (job.withLimit limit).program.length := hpc
      rw [follow, if_neg hpc, follow, if_neg hpc']
      exact Repeats.refl _

theorem Following.follow (h : Following job f pc depth known s) :
    Ensures (Validator.follow job f pc depth known) s (fun _ s' => s'.Justified job)
      (fun _ _ => True) :=
  ensures_follow (I := Following job f) (fun _ _ _ _ _ h => h.justified)
    (fun _ _ _ _ hpc h => (justified_visit h hpc).mono (fun _ _ h => h) (fun _ _ _ => trivial)) h

theorem repeats_followAll (h : job.RaisesTo limit) (fuel : Nat) (hs : s.Justified job) :
    Repeats (followAll job fuel) (followAll (job.withLimit limit) fuel) s := by
  induction fuel generalizing s with
  | zero => exact Repeats.refl _
  | succ fuel ih =>
      rw [followAll, followAll]
      refine Repeats.of_get ?_
      cases hwork : s.worklist with
      | nil => exact Repeats.refl _
      | cons p rest =>
          obtain ⟨hpoint, hopen⟩ := hs.paths p (by simp [hwork])
          have hrest : ({ s with worklist := rest } : State).Justified job :=
            { hs with paths := fun q hq => hs.paths q (by simp [hwork, hq]) }
          have hfollowing : Following job p.frame p.pc p.depth [] { s with worklist := rest } :=
            ⟨hrest, hpoint, hopen⟩
          refine Repeats.of_bind (Repeats.refl _) (fun _ s' hset => ?_)
          cases hset
          refine Repeats.of_bind (repeats_follow h hfollowing) (fun _ s'' hrun => ?_)
          exact ih (hfollowing.follow.of_ok hrun)

theorem traverse_withLimit (h : job.RaisesTo limit) (htraverse : traverse job = .ok () s) :
    traverse (job.withLimit limit) = .ok () s :=
  repeats_followAll h job.pathBound (justified_start job) () s htraverse

/-! ## Summaries -/

theorem Needs.settle_mono {n m : Needs} {id : FrameId} (hraised : limit.floor ≤ limit'.floor)
    (h : n.settle limit id site = .ok m) : n.settle limit' id site = .ok m := by
  unfold Needs.settle at h ⊢
  dsimp only at h ⊢
  split at h
  · rename_i henough
    rw [if_pos henough, h]
  · rename_i hmore
    rw [if_neg hmore]
    split at h
    · simp [refuseCall] at h
    · rename_i hfits
      rw [not_or] at hfits
      rw [if_neg (not_or.2 ⟨hfits.1, by omega⟩), h]

theorem Needs.settle_callers_mono {n m : Needs} {id : FrameId} {sites : List CallSite}
    (hraised : limit.floor ≤ limit'.floor) (h : sites.foldlM (Needs.settle limit id) n = .ok m) :
    sites.foldlM (Needs.settle limit' id) n = .ok m := by
  induction sites generalizing n with
  | nil => exact h
  | cons site rest ih =>
      rw [List.foldlM_cons] at h ⊢
      cases hsettle : n.settle limit id site with
      | error r =>
          rw [hsettle] at h
          cases h
      | ok n' =>
          rw [hsettle] at h
          rw [Needs.settle_mono hraised hsettle]
          exact ih h

/-- Needs that are pushed to the end come to the same end under a higher limit, with more fuel. -/
theorem Needs.settleAll_mono {n m : Needs} {fuel fuel' : Nat} (hraised : limit.floor ≤ limit'.floor)
    (hfuel : fuel ≤ fuel') (hdone : m.pending = []) (h : n.settleAll limit fs fuel = .ok m) :
    n.settleAll limit' fs fuel' = .ok m := by
  have hstop : ∀ fuel', m.settleAll limit' fs fuel' = .ok m := by
    intro fuel'
    cases fuel' with
    | zero => rfl
    | succ fuel' =>
        rw [Needs.settleAll]
        simp only [hdone]
  induction fuel generalizing n fuel' with
  | zero =>
      obtain rfl : n = m := by simpa [Needs.settleAll] using h
      exact hstop fuel'
  | succ fuel ih =>
      obtain ⟨k, rfl⟩ : ∃ k, fuel' = k + 1 := ⟨fuel' - 1, by omega⟩
      rw [Needs.settleAll] at h
      cases hpending : n.pending with
      | nil =>
          obtain rfl : n = m := by simpa [hpending] using h
          exact hstop (k + 1)
      | cons id rest =>
          rw [Needs.settleAll]
          simp only [hpending] at h ⊢
          split at h
          · cases h
          · rename_i n' hn'
            rw [Needs.settle_callers_mono hraised hn']
            exact ih (by omega) h

theorem needs_mono {need : PerFrame Int} (hs : Traversed job fs) (hlimit : 0 ≤ job.limit.floor)
    (hraised : job.limit.floor ≤ limit.floor) (h : needs job.limit fs = .ok need) :
    needs limit fs = .ok need := by
  obtain ⟨m, hm, rfl⟩ := needs_eq_ok_iff.1 h
  have hdone : m.pending = [] := by
    have houtcome := Needs.outcome_settleAll hs (Needs.sound_start hs hlimit)
      (Nat.lt_succ_of_le (Needs.room_start hs job.limit))
    rw [hm] at houtcome
    cases houtcome with
    | settled _ hdone => exact hdone
  refine needs_eq_ok_iff.2 ⟨m, Needs.settleAll_mono hraised ?_ hdone hm, rfl⟩
  have hrounds : job.limit.floor.toNat + 1 ≤ limit.floor.toNat + 1 := by omega
  have := Nat.mul_le_mul_left fs.size hrounds
  omega

theorem summarise_mono {subroutines : List Summary} (hs : Traversed job fs)
    (hlimit : 0 ≤ job.limit.floor) (hraised : job.limit.floor ≤ limit.floor)
    (h : summarise job.limit fs = .ok subroutines) : summarise limit fs = .ok subroutines := by
  obtain ⟨need, hneed, htop, hsummaries⟩ := summarise_eq_ok_iff.1 h
  exact summarise_eq_ok_iff.2
    ⟨need, needs_mono hs hlimit hraised hneed, Int.le_trans htop hraised, hsummaries⟩

/-- A program without recursion that is accepted under a limit is accepted under every higher limit
that is a number of items.  The traversal ends in the same state, so the report is the same: the
summaries of the subroutines, the steps and the frames. -/
theorem accepted_of_higher_limit {program : Program} {table : JumpTable} {factor : Amount}
    {report : Report} (hvalid : validate (Job.make program table limit factor) = .ok report)
    (haccepted : report.verdict = .accepted)
    (htraverse : traverse (Job.make program table limit factor) = .ok () s)
    (hacyclic : ∀ g, ¬ Relation.TransGen s.frames.Calls g g)
    (hcount : limit'.count? ≠ none) (hraised : limit.floor ≤ limit'.floor) :
    traverse (Job.make program table limit' factor) = .ok () s ∧
      validate (Job.make program table limit' factor) = .ok report := by
  obtain ⟨t, need, peak, ht, hc, -⟩ := contract_of_validate hvalid haccepted
  obtain rfl : t = s := by simpa [htraverse] using ht.symm
  obtain ⟨t', subroutines, ht', hsummarise, rfl⟩ :=
    validate_accepted_iff.1 ⟨hvalid, haccepted⟩
  obtain rfl : t' = t := by simpa [htraverse] using ht'.symm
  have hlimit := Int.le_trans (hc.starts Reach.start) hc.top
  have htraverse' := traverse_withLimit (hc.raisesTo hacyclic hcount hraised) htraverse
  have hsummarise' := summarise_mono (traversed_of_traverse htraverse) hlimit hraised hsummarise
  exact ⟨htraverse', (validate_accepted_iff.2 ⟨_, _, htraverse', hsummarise', rfl⟩).1⟩

namespace Sample

/-- A subroutine that takes two items of its caller, puts a constant and an unknown item in their
place and jumps to the constant.  All of it just fits in the limit. -/
def handing : Job :=
  Job.make
    (Program.ofCode .immediate
      #[0x60, 0x00, 0x60, 0x00, 0x5d, 0x00, 0x00, 0x09, 0x00,
        0x5c, 0x50, 0x50, 0x60, 0x12, 0x36, 0x50, 0x56, 0x00, 0x5b, 0x5e])
    ⟨#[⟨16, 18, by decide, by decide⟩], List.pairwise_singleton _ _⟩ (.whole 2) (.whole 2)

/-- The end of its traversal. -/
def handingEnd : State where
  frames := ⟨[
    { id := .main
      depths := (((({} : Std.HashMap Nat Int).insert 0 0).insert 2 1).insert 4 2).insert 8 0
      high := 2
      calls := [⟨.main, 9, 4, 8, 2⟩] },
    { id := .entry 9
      depths := ((((((((({} : Std.HashMap Nat Int).insert 9 0).insert 10 0).insert 11 (-1)).insert
        12 (-2)).insert 14 (-1)).insert 15 0).insert 16 (-1)).insert 18 (-2)).insert 19 (-2)
      low := -2
      net := some (-2)
      callers := [⟨.main, 9, 4, 8, 2⟩] }]⟩
  worklist := []
  steps := 13

set_option maxRecDepth 10000 in
theorem traverse_handing : traverse handing = .ok () handingEnd := by
  cbv

set_option maxRecDepth 10000 in
theorem validate_handing :
    validate handing = .ok ⟨.accepted, [⟨9, 2, some (-2), 0⟩], 13, 2⟩ := by
  rw [validate, traverse_handing]
  cbv

/-- Only the main program calls, and it calls the subroutine. -/
theorem calls_handing {f g : FrameId} (h : handingEnd.frames.Calls f g) :
    f = .main ∧ g = .entry 9 := by
  obtain ⟨F, hF, site, hsite, rfl⟩ := h
  have hid := Frames.find?_id hF
  have hmem := Frames.mem_of_find? hF
  simp only [handingEnd, List.mem_cons, List.not_mem_nil, or_false] at hmem
  rcases hmem with rfl | rfl
  · simp only [List.mem_singleton] at hsite
    subst hsite
    exact ⟨hid.symm, rfl⟩
  · cases hsite

theorem acyclic_handing (g : FrameId) : ¬ Relation.TransGen handingEnd.frames.Calls g g := by
  intro hcycle
  obtain ⟨f, hfirst, -⟩ := Relation.TransGen.head'_iff.1 hcycle
  obtain ⟨f', -, hlast⟩ := Relation.TransGen.tail'_iff.1 hcycle
  have := (calls_handing hfirst).1.symm.trans (calls_handing hlast).2
  cases this

end Sample

theorem accepted_of_higher_limit_handing :
    (2 : Int) ≤ 1024 ∧ validate (Sample.handing.withLimit (.whole 1024)) =
      .ok ⟨.accepted, [⟨9, 2, some (-2), 0⟩], 13, 2⟩ := by
  have hraised : (2 : Int) ≤ 1024 := by decide
  have hcount : (Amount.whole 1024).count? ≠ none := by simp [Amount.count?]
  exact ⟨hraised, (accepted_of_higher_limit Sample.validate_handing rfl Sample.traverse_handing
    Sample.acyclic_handing hcount hraised).2⟩

namespace Sample

/-- Two subroutines that call each other.  The second one takes two items of the first one, puts a
constant and two unknown items in their place, drops these and jumps to the constant. -/
def cutShort (limit : Amount) : Job :=
  Job.make
    (Program.ofCode .immediate
      #[0x5d, 0x00, 0x00, 0x04, 0x5c, 0x36, 0x36, 0x5d, 0x00, 0x00, 0x0b,
        0x5c, 0x50, 0x50, 0x60, 0x00, 0x36, 0x36, 0x50, 0x50, 0x56,
        0x5b, 0x5d, 0x00, 0x00, 0x04])
    ⟨#[⟨20, 21, by decide, by decide⟩], List.pairwise_singleton _ _⟩ limit (.whole 2)

/-- The end of its traversal with a limit of two. -/
def cutShortEnd : State where
  frames := ⟨[
    { id := .main
      depths := ({} : Std.HashMap Nat Int).insert 0 0
      calls := [⟨.main, 4, 0, 4, 0⟩] },
    { id := .entry 4
      depths := (((({} : Std.HashMap Nat Int).insert 4 0).insert 5 0).insert 6 1).insert 7 2
      high := 2
      callers := [⟨.main, 4, 0, 4, 0⟩, ⟨.entry 11, 4, 22, 26, -2⟩]
      calls := [⟨.entry 4, 11, 7, 11, 2⟩] },
    { id := .entry 11
      depths := ((((((((((({} : Std.HashMap Nat Int).insert 11 0).insert 12 0).insert 13
        (-1)).insert 14 (-2)).insert 16 (-1)).insert 17 0).insert 18 1).insert 19 0).insert 20
        (-1)).insert 21 (-2)).insert 22 (-2)
      low := -2
      high := 1
      callers := [⟨.entry 4, 11, 7, 11, 2⟩]
      calls := [⟨.entry 11, 4, 22, 26, -2⟩] }]⟩
  worklist := []
  steps := 16

set_option maxRecDepth 10000 in
theorem traverse_cutShort : traverse (cutShort (.whole 2)) = .ok () cutShortEnd := by
  cbv

end Sample

-- With recursion the cut is felt: a limit of two forgets the constant and takes the target from the
-- table, and a limit of three knows that the constant is no jump destination.
set_option maxRecDepth 10000 in
example :
    validate (Sample.cutShort (.whole 2)) =
      .ok ⟨.accepted, [⟨4, 0, none, 2⟩, ⟨11, 2, none, 1⟩], 16, 3⟩ ∧
    validate (Sample.cutShort (.whole 3)) =
      .ok ⟨.rejected ⟨.staticNotMarker 0 .jumpdest, some 20, some (.opcode .jump)⟩, [], 14, 3⟩ := by
  constructor
  · rw [validate, Sample.traverse_cutShort]
    cbv
  · cbv

end Validator

end FlowCheck
