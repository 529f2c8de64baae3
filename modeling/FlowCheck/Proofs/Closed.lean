import FlowCheck.Proofs.Growth

/-!
# Everything reached is recorded

While a traversal runs, every successor of what it has recorded is recorded too or still on its
worklist.  Once the worklist is empty, the frames hold every fact of `Reach` (`Closed.holds`), and a
traversal that was not refused has checked all of them (`Closed.consistent`).

`Closed` has one gap while an instruction is being dispatched: its own successors.
-/

namespace FlowCheck.Validator

variable {job : Job} {s : State} {fs fs' : Frames} {todo todo' : List Path} {f : FrameId} {pc : Nat}
  {depth : Int} {known : Constants} {i : Instruction} {site : CallSite}
  {gap : Option (FrameId × Nat)}

/-! ## Closure -/

/-- A point is behind the code, visited, or still to be visited. -/
def Covered (job : Job) (fs : Frames) (todo : List Path) (f : FrameId) (pc : Nat) (depth : Int) :
    Prop :=
  job.program.length ≤ pc ∨ fs.depth? f pc = some depth ∨ (⟨f, pc, depth⟩ : Path) ∈ todo

/-- Frames grow and take over every path that was still to be followed. -/
structure Carries (job : Job) (fs : Frames) (todo : List Path) (fs' : Frames) (todo' : List Path) :
    Prop where
  grows : fs.Grows fs'
  paths : ∀ p ∈ todo, Covered job fs' todo' p.frame p.pc p.depth

theorem Carries.of_subset (hgrow : fs.Grows fs') (htodo : ∀ p ∈ todo, p ∈ todo') :
    Carries job fs todo fs' todo' :=
  ⟨hgrow, fun p hp => Or.inr (Or.inr (htodo p hp))⟩

theorem Covered.mono (h : Covered job fs todo f pc depth) (hc : Carries job fs todo fs' todo') :
    Covered job fs' todo' f pc depth := by
  rcases h with hpc | hat | hpath
  · exact Or.inl hpc
  · exact Or.inr (Or.inl (hc.grows.depth? hat))
  · exact hc.paths _ hpath

theorem Carries.trans {gs : Frames} {todo'' : List Path} (h : Carries job fs todo fs' todo')
    (h' : Carries job fs' todo' gs todo'') : Carries job fs todo gs todo'' :=
  ⟨h.grows.trans h'.grows, fun p hp => (h.paths p hp).mono h'⟩

/-- A call is known to both of its frames. -/
def Frames.HasCall (fs : Frames) (site : CallSite) : Prop :=
  (∃ F, fs.find? site.caller = some F ∧ site ∈ F.calls) ∧
    ∃ F, fs.find? (.entry site.callee) = some F ∧ site ∈ F.callers

theorem Frames.HasCall.mono (h : fs.HasCall site) (hgrow : fs.Grows fs') : fs'.HasCall site := by
  obtain ⟨⟨F, hF, hcall⟩, G, hG, hcaller⟩ := h
  obtain ⟨F', hF', hFF'⟩ := hgrow _ F hF
  obtain ⟨G', hG', hGG'⟩ := hgrow _ G hG
  exact ⟨⟨F', hF', hFF'.calls site hcall⟩, G', hG', hGG'.callers site hcaller⟩

theorem Frames.HasCall.of_recordCall (hcaller : fs.find? site.caller ≠ none)
    (hcallee : fs.find? (.entry site.callee) ≠ none) : (fs.recordCall site).HasCall site := by
  obtain ⟨F, hF⟩ := Option.ne_none_iff_exists'.1
    ((Frames.find?_modify_ne_none (·.withCaller site) (fun _ => rfl) fs (.entry site.callee) _).2
      hcaller)
  obtain ⟨G, hG⟩ := Option.ne_none_iff_exists'.1 hcallee
  have hG' := Frames.find?_modify_self (·.withCaller site) (fun _ => rfl) hG
  refine ⟨⟨F.withCall site, Frames.find?_modify_self (·.withCall site) (fun _ => rfl) hF, ?_⟩, ?_⟩
  · simp [Frame.withCall]
  · obtain ⟨H, hH, hgrow⟩ := Frames.Grows.modify (·.withCall site) (fun _ => rfl)
      (fun F _ => { Frame.Grows.refl F with calls := fun _ h => List.mem_append_left _ h }) _ _ hG'
    exact ⟨H, hH, hgrow.callers site (by simp [Frame.withCaller])⟩

/-- The successors of an instruction are taken care of. -/
structure Settled (job : Job) (fs : Frames) (todo : List Path) (f : FrameId) (i : Instruction)
    (after : Int) (next : Successors) : Prop where
  fall : next.fall ≠ none → Covered job fs todo f i.next after
  jumps : ∀ t ∈ next.jumps, Covered job fs todo f t after
  calls : ∀ t ∈ next.calls, fs.HasCall ⟨f, t, i.pc, i.next, after⟩
  returns : next.returns = true → f ≠ .main ∧ ∃ F, fs.find? f = some F ∧ F.net = some after

theorem Settled.mono {after : Int} {next : Successors} (h : Settled job fs todo f i after next)
    (hc : Carries job fs todo fs' todo') : Settled job fs' todo' f i after next where
  fall hfall := (h.fall hfall).mono hc
  jumps t ht := (h.jumps t ht).mono hc
  calls t ht := (h.calls t ht).mono hc.grows
  returns hreturn := by
    obtain ⟨hmain, F, hF, hnet⟩ := h.returns hreturn
    obtain ⟨F', hF', hFF'⟩ := hc.grows f F hF
    exact ⟨hmain, F', hF', hFF'.net _ hnet⟩

/-- A visited instruction passed its checks, its depths are within the range of its frame, and its
successors are taken care of. -/
def Expanded (job : Job) (fs : Frames) (todo : List Path) (f : FrameId) (pc : Nat) (depth : Int) :
    Prop :=
  ∃ known i after next, Reach job (.point f pc depth known) ∧
    job.Passes f pc depth known i after next ∧
    (∃ F, fs.find? f = some F ∧ F.low ≤ depth - i.descriptor.inputs ∧ after ≤ F.high) ∧
    Settled job fs todo f i after next

theorem Expanded.mono (h : Expanded job fs todo f pc depth) (hc : Carries job fs todo fs' todo') :
    Expanded job fs' todo' f pc depth := by
  obtain ⟨known, i, after, next, hpoint, hpass, ⟨F, hF, hlow, hhigh⟩, hsettled⟩ := h
  obtain ⟨F', hF', hFF'⟩ := hc.grows f F hF
  exact ⟨known, i, after, next, hpoint, hpass,
    ⟨F', hF', Int.le_trans hFF'.low hlow, Int.le_trans hhigh hFF'.high⟩, hsettled.mono hc⟩

/-- Frames and worklist together cover every successor, except those of the gap. -/
structure Closed (job : Job) (fs : Frames) (todo : List Path) (gap : Option (FrameId × Nat)) :
    Prop where
  start : Covered job fs todo .main 0 0
  opened : ∀ e, fs.find? (.entry e) ≠ none → Covered job fs todo (.entry e) e 0
  expanded : ∀ f pc depth, fs.depth? f pc = some depth → gap ≠ some (f, pc) →
    Expanded job fs todo f pc depth
  resumed : ∀ e F net, fs.find? (.entry e) = some F → F.net = some net → ∀ site ∈ F.callers,
    job.Fits site.caller (site.depth + net) ∧
      Covered job fs todo site.caller site.resume (site.depth + net)
  main_net : ∀ F, fs.find? .main = some F → F.net = none

namespace Closed

/-- Growth keeps closure if all that it visits is the new gap, and it covers what it opens and
resumes what it may. -/
theorem grow {gap' : Option (FrameId × Nat)} (h : Closed job fs todo gap)
    (hc : Carries job fs todo fs' todo')
    (hdepth : ∀ f pc depth, fs'.depth? f pc = some depth → gap' ≠ some (f, pc) →
      fs.depth? f pc = some depth ∧ gap ≠ some (f, pc))
    (hopened : ∀ e, fs'.find? (.entry e) ≠ none → fs.find? (.entry e) = none →
      Covered job fs' todo' (.entry e) e 0)
    (hresumed : ∀ e F' net, fs'.find? (.entry e) = some F' → F'.net = some net →
      ∀ site ∈ F'.callers,
        (∃ F, fs.find? (.entry e) = some F ∧ F.net = some net ∧ site ∈ F.callers) ∨
          (job.Fits site.caller (site.depth + net) ∧ site.resumption net ∈ todo'))
    (hmain : ∀ F', fs'.find? .main = some F' → F'.net = none) : Closed job fs' todo' gap' where
  start := h.start.mono hc
  opened e he := by
    cases hfind : fs.find? (.entry e) with
    | none => exact hopened e he hfind
    | some F => exact (h.opened e (by simp [hfind])).mono hc
  expanded f pc depth hat hgap := by
    obtain ⟨hat', hgap'⟩ := hdepth f pc depth hat hgap
    exact (h.expanded f pc depth hat' hgap').mono hc
  resumed e F' net hF' hnet site hsite := by
    rcases hresumed e F' net hF' hnet site hsite with ⟨F, hF, hFnet, hFsite⟩ | ⟨hfits, hpath⟩
    · obtain ⟨hfits, hcov⟩ := h.resumed e F net hF hFnet site hFsite
      exact ⟨hfits, hcov.mono hc⟩
    · exact ⟨hfits, Or.inr (Or.inr hpath)⟩
  main_net := hmain

/-- A worklist that takes over all paths serves as well. -/
theorem carry (h : Closed job fs todo gap) (hc : Carries job fs todo fs todo') :
    Closed job fs todo' gap := by
  refine h.grow hc (fun _ _ _ hat hgap => ⟨hat, hgap⟩) ?_ ?_ h.main_net
  · intro e he hnone
    exact absurd hnone he
  · intro e F net hF hnet site hsite
    exact Or.inl ⟨F, hF, hnet, hsite⟩

/-- A path that leads behind the code or to a visited counter need not be followed. -/
theorem skip (h : Closed job fs (⟨f, pc, depth⟩ :: todo) gap)
    (hskip : job.program.length ≤ pc ∨ fs.depth? f pc = some depth) : Closed job fs todo gap := by
  refine h.carry ⟨Frames.Grows.refl fs, fun p hp => ?_⟩
  rcases List.mem_cons.1 hp with rfl | hp
  · exact hskip.imp_right Or.inl
  · exact Or.inr (Or.inr hp)

theorem open_ (h : Closed job fs todo gap) (target : Nat) :
    Closed job (fs.add { id := .entry target }) (⟨.entry target, target, 0⟩ :: todo) gap := by
  refine h.grow (Carries.of_subset (Frames.Grows.add fs _) (fun p hp => List.mem_cons_of_mem _ hp))
    ?_ ?_ ?_ ?_
  · intro g pc' depth' hat hgap
    rw [Frames.depth?_add rfl] at hat
    exact ⟨hat, hgap⟩
  · -- the only frame that is new is the opened one, and its entry is on the worklist
    intro e he hfind
    rw [Frames.find?_add, hfind] at he
    by_cases heq : target = e
    · subst heq
      exact Or.inr (Or.inr (List.mem_cons_self ..))
    · simp [heq] at he
  · intro e F' net hF' hnet site hsite
    rw [Frames.find?_add] at hF'
    cases hfind : fs.find? (.entry e) with
    | some F =>
        obtain rfl : F = F' := by simpa [hfind] using hF'
        exact Or.inl ⟨F, rfl, hnet, hsite⟩
    | none =>
        rw [hfind, Option.none_or] at hF'
        -- a fresh frame has no callers and does not return
        split at hF'
        · cases hF'
          simp at hnet
        · simp at hF'
  · intro F' hF'
    rw [Frames.find?_add] at hF'
    cases hfind : fs.find? .main with
    | some F =>
        obtain rfl : F = F' := by simpa [hfind] using hF'
        exact h.main_net F hfind
    | none => simp [hfind] at hF'

/-- A recorded call is resumed if its callee is known to return. -/
theorem recordCall (h : Closed job fs todo gap) (htodo : ∀ p ∈ todo, p ∈ todo')
    (hresume : ∀ F net, fs.find? (.entry site.callee) = some F → F.net = some net →
      job.Fits site.caller (site.depth + net) ∧ site.resumption net ∈ todo') :
    Closed job (fs.recordCall site) todo' gap := by
  refine h.grow (Carries.of_subset (Frames.Grows.recordCall fs site) htodo) ?_ ?_ ?_ ?_
  · intro g pc' depth' hat hgap
    obtain ⟨F', hF', hdepth⟩ := Option.bind_eq_some_iff.1 hat
    obtain ⟨F, hF, -, -, hdepths, -⟩ := Frames.find?_recordCall hF'
    refine ⟨Option.bind_eq_some_iff.2 ⟨F, hF, ?_⟩, hgap⟩
    rw [← hdepths, hdepth]
  · intro e he hnone
    exact absurd hnone ((Frames.find?_recordCall_ne_none fs site _).1 he)
  · intro e F' net hF' hnet other hother
    obtain ⟨F, hF, -, hFnet, -, hcallers⟩ := Frames.find?_recordCall hF'
    -- the callers of the callee are those it had and the new site
    rcases hcallers other hother with hold | ⟨he, rfl⟩
    · exact Or.inl ⟨F, hF, hFnet ▸ hnet, hold⟩
    · rw [he] at hF
      exact Or.inr (hresume F net hF (hFnet ▸ hnet))
  · intro F' hF'
    obtain ⟨F, hF, -, hFnet, -⟩ := Frames.find?_recordCall hF'
    rw [hFnet]
    exact h.main_net F hF

/-- The first return of a subroutine resumes all of its callers. -/
theorem returned {F : Frame} (h : Closed job fs todo gap) (hf : f ≠ .main)
    (hF : fs.find? f = some F) (hnone : F.net = none)
    (hfits : ∀ site ∈ F.callers, job.Fits site.caller (site.depth + depth)) :
    Closed job (fs.modify f (·.returned depth))
      ((F.callers.map (fun site => site.resumption depth)).reverse ++ todo) gap := by
  refine h.grow (Carries.of_subset (Frames.Grows.returned hF hnone)
    (fun p hp => List.mem_append_right _ hp)) ?_ ?_ ?_ ?_
  · intro g pc' depth' hat hgap
    rw [Frames.depth?_modify (·.returned depth) (fun _ => rfl) (fun _ => rfl)] at hat
    exact ⟨hat, hgap⟩
  · intro e he hfind
    rw [Frames.find?_modify_ne_none (·.returned depth) (fun _ => rfl)] at he
    exact absurd hfind he
  · intro e F' net hF' hnet site hsite
    rw [Frames.find?_modify (·.returned depth) (fun _ => rfl)] at hF'
    split at hF'
    · rename_i he
      rw [he, hF] at hF'
      obtain rfl : F.returned depth = F' := by simpa using hF'
      obtain rfl : depth = net := by simpa [Frame.returned] using hnet
      -- every caller of the frame that returns is resumed by a new path
      refine Or.inr ⟨hfits site hsite, List.mem_append_left _ (List.mem_reverse.2 ?_)⟩
      exact List.mem_map.2 ⟨site, hsite, rfl⟩
    · exact Or.inl ⟨F', hF', hnet, hsite⟩
  · intro F' hF'
    rw [Frames.find?_modify (·.returned depth) (fun _ => rfl), if_neg (Ne.symm hf)] at hF'
    exact h.main_net F' hF'

/-- A visited counter opens the gap: its path is done, its successors are not. -/
theorem record {low after : Int} (h : Closed job fs (⟨f, pc, depth⟩ :: todo) none)
    (hopen : fs.find? f ≠ none) (hnone : fs.depth? f pc = none) :
    Closed job (fs.record f pc depth low after) todo (some (f, pc)) := by
  have hmod : ∀ g F', (fs.record f pc depth low after).find? g = some F' →
      ∃ F, fs.find? g = some F ∧ F'.net = F.net ∧ F'.callers = F.callers := by
    intro g F' hF'
    rw [Frames.record, Frames.find?_modify (·.ranged low after) (fun _ => rfl),
      Frames.find?_modify (·.visited pc depth) (fun _ => rfl)] at hF'
    split at hF'
    · obtain ⟨G, hG, rfl⟩ := Option.map_eq_some_iff.1 hF'
      obtain ⟨F, hF, rfl⟩ := Option.map_eq_some_iff.1 hG
      exact ⟨F, hF, rfl, rfl⟩
    · exact ⟨F', hF', rfl, rfl⟩
  refine h.grow ⟨Frames.Grows.record hnone, fun p hp => ?_⟩ ?_ ?_ ?_ ?_
  · rcases List.mem_cons.1 hp with rfl | hp
    · exact Or.inr (Or.inl (by simp [Frames.depth?_record hopen]))
    · exact Or.inr (Or.inr hp)
  · intro g pc' depth' hat hgap
    -- the counter just recorded is the gap, so any other one was recorded before
    have hne : ¬ (g = f ∧ pc' = pc) := fun heq => hgap (by rw [heq.1, heq.2])
    rw [Frames.depth?_record hopen, if_neg hne] at hat
    exact ⟨hat, by simp⟩
  · intro e he hfind
    obtain ⟨F', hF'⟩ := Option.ne_none_iff_exists'.1 he
    obtain ⟨F, hF, -⟩ := hmod _ F' hF'
    rw [hfind] at hF
    cases hF
  · intro e F' net hF' hnet site hsite
    obtain ⟨F, hF, hFnet, hcallers⟩ := hmod _ F' hF'
    exact Or.inl ⟨F, hF, hFnet ▸ hnet, hcallers ▸ hsite⟩
  · intro F' hF'
    obtain ⟨F, hF, hFnet, -⟩ := hmod _ F' hF'
    rw [hFnet]
    exact h.main_net F hF

/-- The gap is closed once the successors of its instruction are taken care of. -/
theorem fill (h : Closed job fs todo (some (f, pc))) (hat : fs.depth? f pc = some depth)
    (hexpanded : Expanded job fs todo f pc depth) : Closed job fs todo none := by
  refine { h with expanded := fun g pc' depth' hat' _ => ?_ }
  by_cases heq : g = f ∧ pc' = pc
  · obtain ⟨rfl, rfl⟩ := heq
    rw [hat] at hat'
    cases hat'
    exact hexpanded
  · refine h.expanded g pc' depth' hat' (fun hgap => heq ?_)
    cases hgap
    exact ⟨rfl, rfl⟩

end Closed

/-! ## The operations of a traversal -/

/-- A call is noted and everything else carried over. -/
theorem closed_call {target : Nat} (h : Closed job s.frames s.worklist gap)
    (hf : s.frames.find? f ≠ none) :
    Ensures (call job f i depth target) s (fun _ s' => Closed job s'.frames s'.worklist gap ∧
      Carries job s.frames s.worklist s'.frames s'.worklist ∧
      s'.frames.HasCall ⟨f, target, i.pc, i.next, depth⟩) (fun _ _ => True) := by
  have hopened : Ensures (openFrame target) s (fun _ s' =>
      Closed job s'.frames s'.worklist gap ∧ s.frames.Grows s'.frames ∧
        (∀ p ∈ s.worklist, p ∈ s'.worklist) ∧ s'.frames.find? (.entry target) ≠ none)
      (fun _ _ => True) := by
    refine ensures_openFrame (fun hopen => ⟨h, Frames.Grows.refl _, fun _ hp => hp, hopen⟩)
      (fun hnone => ?_)
    exact ⟨h.open_ target, Frames.Grows.add _ _, fun p hp => List.mem_cons_of_mem _ hp,
      Frames.find?_add_self_ne_none _ _⟩
  refine ensures_call rfl (hopened.mono ?_ (fun _ _ h => h))
  rintro _ s' ⟨hs', hgrow, hpaths, hcallee⟩
  have hhas : (s'.frames.recordCall ⟨f, target, i.pc, i.next, depth⟩).HasCall
      ⟨f, target, i.pc, i.next, depth⟩ :=
    Frames.HasCall.of_recordCall (hgrow.open_ hf) hcallee
  have hgrow' := Frames.Grows.recordCall s'.frames ⟨f, target, i.pc, i.next, depth⟩
  -- a callee that has not returned is resumed later, one that has is resumed at once
  refine ⟨fun hnone => ⟨hs'.recordCall (fun _ hp => hp) ?_,
    Carries.of_subset (hgrow.trans hgrow') hpaths, hhas⟩, fun net hsome => ?_⟩
  · intro F net hF hnet
    obtain ⟨F', hF', hFF'⟩ := hgrow' _ F hF
    rw [hF', Option.bind_some, hFF'.net net hnet] at hnone
    cases hnone
  · refine ensures_resume (fun hfits => ?_) (fun _ _ _ => trivial)
    refine ⟨hs'.recordCall (fun _ hp => List.mem_cons_of_mem _ hp) ?_,
      Carries.of_subset (hgrow.trans hgrow') (fun p hp => List.mem_cons_of_mem _ (hpaths p hp)),
      hhas⟩
    intro F net' hF hnet
    obtain ⟨F', hF', hFF'⟩ := hgrow' _ F hF
    rw [hF', Option.bind_some, hFF'.net net' hnet] at hsome
    cases hsome
    exact ⟨hfits, List.mem_cons_self ..⟩

theorem closed_returnFrom (h : Closed job s.frames s.worklist gap) (hf : s.frames.find? f ≠ none) :
    Ensures (returnFrom job f i depth) s (fun _ s' => Closed job s'.frames s'.worklist gap ∧
      Carries job s.frames s.worklist s'.frames s'.worklist ∧
      f ≠ .main ∧ ∃ F, s'.frames.find? f = some F ∧ F.net = some depth) (fun _ _ => True) := by
  refine ensures_returnFrom (fun _ _ _ => trivial) (fun _ hnone => absurd hnone hf) ?_ ?_
    (fun _ _ _ _ _ _ _ _ => trivial)
  · intro F hmain hF hnone
    refine ensures_resumeAll (fun hfits => ?_) (fun _ _ _ _ _ _ _ _ => trivial)
    have hF' := Frames.find?_modify_self (·.returned depth) (fun _ => rfl) hF
    refine ⟨h.returned hmain hF hnone hfits, Carries.of_subset ?_ ?_, hmain, _, hF', rfl⟩
    · exact Frames.Grows.returned hF hnone
    · exact fun p hp => List.mem_append_right _ hp
  · intro F hmain hF hnet
    exact ⟨h, Carries.of_subset (Frames.Grows.refl _) (fun _ hp => hp), hmain, F, hF, hnet⟩

/-- While an instruction is dispatched, its own successors are the gap, and what stood in the
frames and on the worklist is carried over. -/
structure Dispatching (job : Job) (f : FrameId) (pc : Nat) (fs : Frames) (todo : List Path)
    (s : State) : Prop where
  closed : Closed job s.frames s.worklist (some (f, pc))
  carries : Carries job fs todo s.frames s.worklist

/-- Once the jumps, calls and returns of an instruction are carried out, the gap is closed. -/
theorem Dispatching.finish {after : Int} {next : Successors}
    (h : Dispatching job f pc fs
      ((next.jumps.map (fun t => ⟨f, t, after⟩)).reverse ++ todo') s)
    (hat : fs.depth? f pc = some depth) (hpoint : Reach job (.point f pc depth known))
    (hpass : job.Passes f pc depth known i after next)
    (hrange : ∃ F, fs.find? f = some F ∧ F.low ≤ depth - i.descriptor.inputs ∧ after ≤ F.high)
    (hcalls : ∀ t ∈ next.calls, s.frames.HasCall ⟨f, t, i.pc, i.next, after⟩)
    (hreturns : next.returns = true →
      f ≠ .main ∧ ∃ F, s.frames.find? f = some F ∧ F.net = some after)
    (htodo : ∀ p ∈ s.worklist, p ∈ todo)
    (hfall : next.fall ≠ none → (⟨f, i.next, after⟩ : Path) ∈ todo) :
    Closed job s.frames todo none := by
  have hcarry : Carries job s.frames s.worklist s.frames todo :=
    Carries.of_subset (Frames.Grows.refl _) htodo
  refine (h.closed.carry hcarry).fill (h.carries.grows.depth? hat) ?_
  obtain ⟨F, hF, hlow, hhigh⟩ := hrange
  obtain ⟨F', hF', hFF'⟩ := h.carries.grows f F hF
  refine ⟨known, i, after, next, hpoint, hpass,
    ⟨F', hF', Int.le_trans hFF'.low hlow, Int.le_trans hhigh hFF'.high⟩, ?_⟩
  refine ⟨fun hne => Or.inr (Or.inr (hfall hne)), fun t ht => ?_, hcalls, hreturns⟩
  have hpath : (⟨f, t, after⟩ : Path) ∈
      (next.jumps.map (fun t => ⟨f, t, after⟩)).reverse ++ todo' :=
    List.mem_append_left _ (List.mem_reverse.2 (List.mem_map.2 ⟨t, ht, rfl⟩))
  exact (h.carries.paths _ hpath).mono hcarry

/-- Each call of an instruction is noted, and the later ones carry that over. -/
theorem closed_calls {targets : List Nat} (hf : fs.find? f ≠ none)
    (h : Dispatching job f pc fs todo s) :
    Ensures (targets.forM (fun t => call job f i depth t)) s (fun _ s' =>
      Dispatching job f pc fs todo s' ∧
        ∀ t ∈ targets, s'.frames.HasCall ⟨f, t, i.pc, i.next, depth⟩) (fun _ _ => True) := by
  have hcall : ∀ t ∈ targets, ∀ s : State, Dispatching job f pc fs todo s →
      Ensures (call job f i depth t) s (fun _ s' => Dispatching job f pc fs todo s' ∧
        s'.frames.HasCall ⟨f, t, i.pc, i.next, depth⟩ ∧
        ∀ c, s.frames.HasCall ⟨f, c, i.pc, i.next, depth⟩ →
          s'.frames.HasCall ⟨f, c, i.pc, i.next, depth⟩) (fun _ _ => True) := by
    intro t _ s hs
    refine (closed_call hs.closed (hs.carries.grows.open_ hf)).mono ?_ (fun _ _ h => h)
    rintro _ s' ⟨hs', hc, hhas⟩
    exact ⟨⟨hs', hs.carries.trans hc⟩, hhas, fun c hcall => hcall.mono hc.grows⟩
  exact Ensures.of_forM_each hcall h

theorem closed_dispatch {after : Int} (h : Closed job s.frames s.worklist (some (f, pc)))
    (hat : s.frames.depth? f pc = some depth) (hpoint : Reach job (.point f pc depth known))
    (hpc : pc < job.program.length) (hdecoded : job.program.decode pc = .ok i)
    (hdepth : job.checkDepth f i depth = .ok (depth - i.descriptor.inputs, after))
    (hrange : ∃ F, s.frames.find? f = some F ∧ F.low ≤ depth - i.descriptor.inputs ∧
      after ≤ F.high) :
    Ensures (dispatch job f i after known) s (fun on s' =>
      match on with
      | none => Closed job s'.frames s'.worklist none
      | some on => Closed job s'.frames (⟨f, pc + 1 + on.width, on.depth⟩ :: s'.worklist) none)
      (fun _ _ => True) := by
  have hf : s.frames.find? f ≠ none := by
    obtain ⟨F, hF, -⟩ := hrange
    simp [hF]
  refine ensures_dispatch (fun _ _ => trivial) (fun next hnext => ?_)
  have hpass : job.Passes f pc depth known i after next := ⟨hpc, hdecoded, hdepth, hnext⟩
  -- what is left to show once the effects of the instruction are done: the path goes on or ends
  have hpost : ∀ s' : State, Dispatching job f pc s.frames
        ((next.jumps.map (fun t => ⟨f, t, after⟩)).reverse ++ s.worklist) s' →
      (∀ t ∈ next.calls, s'.frames.HasCall ⟨f, t, i.pc, i.next, after⟩) →
      (next.returns = true → f ≠ .main ∧ ∃ F, s'.frames.find? f = some F ∧ F.net = some after) →
      match next.fall.map (fun k => (⟨i.descriptor.width, after, k⟩ : Onward)) with
      | none => Closed job s'.frames s'.worklist none
      | some on =>
          Closed job s'.frames (⟨f, pc + 1 + on.width, on.depth⟩ :: s'.worklist) none := by
    intro s' hs' hcalls hreturns
    cases hk : next.fall with
    | none =>
        exact hs'.finish hat hpoint hpass hrange hcalls hreturns (fun _ hp => hp)
          (fun hne => absurd hk hne)
    | some k =>
        refine hs'.finish hat hpoint hpass hrange hcalls hreturns
          (fun _ hp => List.mem_cons_of_mem _ hp) (fun _ => ?_)
        rw [Instruction.next, Program.decode_pc hdecoded]
        exact List.mem_cons_self ..
  -- jumps first: their paths are on the worklist before calls and returns are carried out
  have hpushed : Dispatching job f pc s.frames
      ((next.jumps.map (fun t => ⟨f, t, after⟩)).reverse ++ s.worklist)
      { s with worklist := (next.jumps.map (fun t => ⟨f, t, after⟩)).reverse ++ s.worklist } :=
    ⟨h.carry (Carries.of_subset (Frames.Grows.refl _) (fun p hp => List.mem_append_right _ hp)),
      Carries.of_subset (Frames.Grows.refl _) (fun _ hp => hp)⟩
  refine (closed_calls hf hpushed).mono ?_ (fun _ _ h => h)
  rintro _ s' ⟨hs', hcalls⟩
  refine ⟨fun _ => ?_, fun hreturn => hpost s' hs' hcalls (by simp [hreturn])⟩
  refine (closed_returnFrom hs'.closed (hs'.carries.grows.open_ hf)).mono ?_ (fun _ _ h => h)
  rintro _ s'' ⟨hs'', hc, hnet⟩
  exact hpost s'' ⟨hs'', hs'.carries.trans hc⟩ (fun t ht => (hcalls t ht).mono hc.grows)
    (fun _ => hnet)

theorem closed_expand (h : Closed job s.frames (⟨f, pc, depth⟩ :: s.worklist) none)
    (hpoint : Reach job (.point f pc depth known)) (hopen : s.frames.find? f ≠ none)
    (hpc : pc < job.program.length) (hi : job.program.decode pc = .ok i)
    (hnone : s.frames.depth? f pc = none) :
    Ensures (expand job f pc i depth known) s (fun on s' =>
      match on with
      | none => Closed job s'.frames s'.worklist none
      | some on => Closed job s'.frames (⟨f, pc + 1 + on.width, on.depth⟩ :: s'.worklist) none)
      (fun _ _ => True) := by
  refine ensures_expand (fun _ _ => trivial) ?_
  intro after hcheck
  refine closed_dispatch (h.record hopen hnone) ?_ hpoint hpc hi hcheck ?_
  · simp [Frames.depth?_record hopen]
  · obtain ⟨F, hF⟩ := Option.ne_none_iff_exists'.1 hopen
    have hvisited := Frames.find?_modify_self (·.visited pc depth) (fun _ => rfl) hF
    refine ⟨_, Frames.find?_modify_self (·.ranged _ _) (fun _ => rfl) hvisited, ?_, ?_⟩
    · exact Int.min_le_right ..
    · exact Int.le_max_right ..

/-- A visit keeps a traversal closed, with the path that it follows among those to be followed. -/
theorem closed_visit (h : Closed job s.frames (⟨f, pc, depth⟩ :: s.worklist) none)
    (hpoint : Reach job (.point f pc depth known)) (hopen : s.frames.find? f ≠ none)
    (hpc : pc < job.program.length) :
    Ensures (visit job f pc depth known) s (fun on s' =>
      match on with
      | none => Closed job s'.frames s'.worklist none
      | some on => Closed job s'.frames (⟨f, pc + 1 + on.width, on.depth⟩ :: s'.worklist) none)
      (fun _ _ => True) := by
  refine ensures_visit (fun _ => trivial) (fun _ _ => trivial) ?_ (fun _ _ _ _ _ => trivial) ?_
  · intro i _ hat
    exact h.skip (Or.inr hat)
  · intro i hi hnone
    exact closed_expand h hpoint hopen hpc hi hnone

theorem closed_start (job : Job) : Closed job ({} : State).frames ({} : State).worklist none where
  start := Or.inr (Or.inr (by simp))
  opened e he := by simp [Frames.find?] at he
  expanded f pc depth hat _ := by
    obtain ⟨F, hF, hdepth⟩ := Option.bind_eq_some_iff.1 hat
    obtain rfl : F = { id := .main } := by simpa using Frames.mem_of_find? hF
    simp at hdepth
  resumed e F net hF := by simp [Frames.find?] at hF
  main_net F hF := by
    obtain rfl : ({ id := .main } : Frame) = F := by simpa [Frames.find?] using hF
    rfl

/-! ## Behind a traversal -/

/-- A fact that the frames hold. -/
def Fact.Recorded (job : Job) (fs : Frames) : Fact → Prop
  | point f pc depth _ => job.program.length ≤ pc ∨ fs.depth? f pc = some depth
  | call f pc depth callee =>
      ∃ i, job.program.decode pc = .ok i ∧ fs.HasCall ⟨f, callee, pc, i.next, depth⟩
  | ret f depth => f ≠ .main ∧ ∃ F, fs.find? f = some F ∧ F.net = some depth

namespace Closed

/-- A visited counter was expanded with the checks and the successors that every fact about it
gives. -/
theorem passes (h : Closed job fs [] none) (hat : fs.depth? f pc = some depth)
    (hpoint : Reach job (.point f pc depth known)) :
    ∃ i after next, job.Passes f pc depth known i after next ∧
      (∃ F, fs.find? f = some F ∧ F.low ≤ depth - i.descriptor.inputs ∧ after ≤ F.high) ∧
      Settled job fs [] f i after next := by
  obtain ⟨known', i, after, next, hpoint', hpass, hrange, hsettled⟩ :=
    h.expanded f pc depth hat (by simp)
  refine ⟨i, after, next, { hpass with targets := ?_ }, hrange, hsettled⟩
  -- the visit knew other constants, but these give the same successors
  rw [hpoint.successors_unique hpoint' hpass.decoded]
  exact hpass.targets

/-- The checks of an instruction have one outcome. -/
theorem settled {after : Int} {next : Successors} (h : Closed job fs [] none)
    (hrecorded : (Fact.point f pc depth known).Recorded job fs)
    (hpoint : Reach job (.point f pc depth known))
    (hpass : job.Passes f pc depth known i after next) : Settled job fs [] f i after next := by
  have hat := hrecorded.resolve_left (Nat.not_le.2 hpass.inside)
  obtain ⟨i', after', next', hpass', -, hsettled⟩ := h.passes hat hpoint
  obtain rfl : i' = i := by simpa [hpass.decoded] using hpass'.decoded.symm
  obtain rfl : after' = after := by simpa [hpass.depths] using hpass'.depths.symm
  obtain rfl : next' = next := by simpa [hpass.targets] using hpass'.targets.symm
  exact hsettled

theorem recorded_of_covered (h : Covered job fs [] f pc depth) (known : Constants) :
    (Fact.point f pc depth known).Recorded job fs := by
  rcases h with hpc | hat | hpath
  · exact Or.inl hpc
  · exact Or.inr hat
  · exact absurd hpath (by simp)

/-- With an empty worklist the frames hold every fact. -/
theorem holds (h : Closed job fs [] none) {fact : Fact} (hfact : Reach job fact) :
    fact.Recorded job fs := by
  induction hfact with
  -- induction on the derivation of the fact: each rule leads from recorded facts to a recorded one
  | start => exact recorded_of_covered h.start _
  | fall hpoint hpass hfall ih =>
      exact recorded_of_covered ((h.settled ih hpoint hpass).fall (by simp [hfall])) _
  | jump hpoint hpass htarget ih =>
      exact recorded_of_covered ((h.settled ih hpoint hpass).jumps _ htarget) _
  | call hpoint hpass htarget ih =>
      have hcall := (h.settled ih hpoint hpass).calls _ htarget
      rw [Program.decode_pc hpass.decoded] at hcall
      exact ⟨_, hpass.decoded, hcall⟩
  | enter hcall ih =>
      obtain ⟨i, -, -, F, hF, -⟩ := ih
      exact recorded_of_covered (h.opened _ (by simp [hF])) _
  | ret hpoint hpass hreturn ih => exact (h.settled ih hpoint hpass).returns hreturn
  | resume hcall hret hdecoded ihcall ihret =>
      obtain ⟨i, hi, -, F, hF, hsite⟩ := ihcall
      obtain ⟨-, F', hF', hnet⟩ := ihret
      rw [hdecoded] at hi
      cases hi
      rw [hF] at hF'
      cases hF'
      exact recorded_of_covered (h.resumed _ F _ hF hnet _ hsite).2 _

/-- A program whose traversal comes to its end is consistent. -/
theorem consistent (h : Closed job fs [] none) : Consistent job where
  passes := by
    intro f pc depth known hpoint hpc
    have hat := (h.holds hpoint).resolve_left (Nat.not_le.2 hpc)
    obtain ⟨i, after, next, hpass, -⟩ := h.passes hat hpoint
    exact ⟨i, after, next, hpass⟩
  one_depth := by
    intro f pc depth depth' known known' hpoint hpoint' hpc
    have hat := (h.holds hpoint).resolve_left (Nat.not_le.2 hpc)
    have hat' := (h.holds hpoint').resolve_left (Nat.not_le.2 hpc)
    rw [hat] at hat'
    simpa using hat'
  one_return := by
    intro f depth depth' hret hret'
    obtain ⟨-, F, hF, hnet⟩ := h.holds hret
    obtain ⟨-, F', hF', hnet'⟩ := h.holds hret'
    rw [hF] at hF'
    cases hF'
    rw [hnet] at hnet'
    simpa using hnet'
  no_stray hret := (h.holds hret).1 rfl
  fits := by
    intro f pc depth callee net hcall hret
    obtain ⟨i, -, -, F, hF, hsite⟩ := h.holds hcall
    obtain ⟨-, F', hF', hnet⟩ := h.holds hret
    rw [hF] at hF'
    cases hF'
    exact (h.resumed _ F _ hF hnet _ hsite).1

end Closed

end FlowCheck.Validator
