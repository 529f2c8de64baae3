import FlowCheck.Proofs.Soundness

/-!
# Summaries hold of every call

The summary of a subroutine is a contract for each of its calls, at whatever depth, recursive or not
(`summary_of_call`).  A call is followed from the state behind its transfer until the pending calls
fall below those of that state.  The simulation of runs is used with the called frame as its root
and with the part of the data stack that the frame does not need as what is kept.
-/

namespace FlowCheck.Machine

variable {host : Host}

/-- A call enters a subroutine. -/
def Enters (host : Host) (s entered : State) : Prop :=
  Advances host s entered ∧ ∃ i, host.program.decode s.pc = .ok i ∧ i.descriptor.kind = .jumpsub

/-- The states of a call, from its entry on as long as it has not returned. -/
inductive During (host : Host) (entered : State) : State → Prop
  | entry : During host entered entered
  | step {s s' : State} (hs : During host entered s) (hadvance : Advances host s s')
      (hinside : entered.calls.stack.height ≤ s'.calls.stack.height) : During host entered s'

/-- The states of a call and those that its instructions leave, also where the run ends in it. -/
def Touches (host : Host) (entered s : State) : Prop :=
  During host entered s ∨ ∃ t next, During host entered t ∧ Leaves host t next s

/-- A state of a call at the return that matches it. -/
structure Returning (host : Host) (entered s : State) : Prop where
  during : During host entered s
  pending : s.calls.stack.height = entered.calls.stack.height
  inside : s.pc < host.program.length
  returns : ∃ i, host.program.decode s.pc = .ok i ∧ i.descriptor.kind = .returnsub

end FlowCheck.Machine

namespace FlowCheck.Validator

open Machine (Host Reachable Leaves Enters During Touches Returning)

variable {job : Job} {host : Host} {calls : FrameId → FrameId → Prop} {need peak : FrameId → Int}
  {root f : FrameId} {bottom base depth : Int} {outer returns : List Nat} {keep : List Word}
  {known : Constants} {pc : Nat} {s entered : Machine.State}

/-- What is kept below a stack is its bottom. -/
theorem take_toList_of_suffix {stack : Stack Word} (h : keep <:+ stack.items) :
    stack.toList.take keep.length = keep.reverse := by
  obtain ⟨top, hitems⟩ := h
  rw [Stack.toList, ← hitems, List.reverse_append]
  simp

/-- A call of a run is one of the calls of the validation. -/
theorem Tracks.enters (h : Tracks job root bottom outer keep f base returns depth known s)
    (hc : Contract job calls need peak) (hjob : job.RunsOn host) (henters : Enters host s entered) :
    ∃ after, Reach job (.call f s.pc after entered.pc) ∧
      (entered.stack.items.length : Int) = base + after := by
  obtain ⟨⟨pc, s', hleaves, rfl⟩, i, hdecoded, hkind⟩ := henters
  obtain ⟨j, hpc, hdecoded', heffect⟩ := hleaves.effect
  obtain rfl : j = i := by simpa [hdecoded] using hdecoded'.symm
  obtain ⟨after, next, hpass⟩ := h.passes hc hjob hpc hdecoded
  have htick := h.tick (s.steps + 1)
  have hheight := htick.height_after hpass heffect
  cases heffect with
  | called _ htarget _ _ _ _ => exact ⟨after, htick.called hjob hpass hkind htarget, hheight⟩
  | computed hkind' _ _ => rcases hkind' with hkind' | hkind' <;> simp [hkind] at hkind'
  | jumped hkind' _ _ _ _ _ => rcases hkind' with hkind' | hkind' <;> simp [hkind] at hkind'
  | began hkind' _ _ => simp [hkind] at hkind'
  | fell hkind' _ _ => simp [hkind] at hkind'
  | returned hkind' _ _ => simp [hkind] at hkind'

/-- A call follows the facts of its frame until it returns. -/
theorem follows_of_during (hc : Contract job calls need peak) (hjob : job.RunsOn host)
    (hkeep : (keep.length : Int) ≤ bottom - need root)
    (hentered : Follows job root bottom entered.calls.stack.items keep entered)
    (hs : During host entered s) :
    Follows job root bottom entered.calls.stack.items keep s := by
  induction hs with
  | entry => exact hentered
  | step _ hadvance hinside ih =>
      rcases ih.advances hc hjob hkeep hadvance with hnext | ⟨hreturned, -⟩
      · exact hnext
      · -- a return from the called frame leaves the call
        rw [Stack.height_eq, Stack.height_eq] at hinside
        omega

/-- A call leaves alone what is kept, and without recursion it stays below the peak of its frame. -/
theorem bounds_of_touches (hc : Contract job calls need peak) (hjob : job.RunsOn host)
    (hkeep : (keep.length : Int) ≤ bottom - need root)
    (hentered : Follows job root bottom entered.calls.stack.items keep entered)
    (hs : Touches host entered s) :
    keep <:+ s.stack.items ∧
      ((∀ g, Relation.ReflTransGen calls root g → ¬ Relation.TransGen calls g g) →
        (s.stack.items.length : Int) ≤ bottom + peak root) := by
  rcases hs with hs | ⟨t, next, ht, hleaves⟩
  · obtain ⟨f, base, returns, depth, known, htracks⟩ :=
      follows_of_during hc hjob hkeep hentered hs
    exact ⟨htracks.keeps, htracks.height_le hc⟩
  · obtain ⟨f, base, returns, depth, known, htracks⟩ :=
      follows_of_during hc hjob hkeep hentered ht
    exact htracks.leaves hc hjob hkeep hleaves

/-- At its matching return, a call is in the frame that it entered. -/
theorem ret_of_returning (h : Returning host entered s)
    (hc : Contract job calls need peak) (hjob : job.RunsOn host)
    (hs : Follows job root bottom entered.calls.stack.items keep s) :
    ∃ depth, Reach job (.ret root depth) ∧ (s.stack.items.length : Int) = bottom + depth := by
  obtain ⟨f, base, returns, depth, known, htracks⟩ := hs
  obtain ⟨i, hdecoded, hkind⟩ := h.returns
  obtain ⟨after, next, hpass⟩ := htracks.passes hc hjob h.inside hdecoded
  -- as many calls are pending as at the entry, so none was made by the frame
  have hnone : returns = [] := by
    have hpending := h.pending
    rw [Stack.height_eq, Stack.height_eq, htracks.calls, List.length_append] at hpending
    exact List.length_eq_zero_iff.1 (by omega)
  have hret := htracks.returns_at hpass hkind
  have hheight := htracks.height
  cases htracks.chain with
  | start => exact ⟨depth, hret, hheight⟩
  | call _ _ _ => cases hnone

/-- A call starts at the entry of its frame, with the items that the frame needs and, below them,
those that it keeps. -/
theorem Contract.enters (hc : Contract job calls need peak) (hjob : job.RunsOn host)
    (hs : Reachable host s) (henters : Enters host s entered) :
    (∃ f pc depth, Reach job (.call f pc depth entered.pc)) ∧
      0 ≤ need (.entry entered.pc) ∧ need (.entry entered.pc) ≤ entered.stack.items.length ∧
      Follows job (.entry entered.pc) entered.stack.items.length entered.calls.stack.items
        (entered.stack.items.drop (need (.entry entered.pc)).toNat) entered := by
  obtain ⟨f, base, returns, depth, known, htracks⟩ := follows_of_reachable hc hjob hs
  obtain ⟨after, hcall, hheight⟩ := htracks.enters hc hjob henters
  obtain ⟨-, hmark, i, hdecoded, -⟩ := hcall.of_call
  have hnonneg := hc.need_nonneg (Program.decode_of_hasMarker hmark).1 hcall.enter
  -- the needs along the chain up to the main program, which needs nothing
  have hneed := (htracks.chain.call hcall hdecoded).need_le hc
  have hmain := hc.main
  refine ⟨⟨f, s.pc, after, hcall⟩, hnonneg, by omega, ?_⟩
  exact ⟨_, _, [], 0, [], Chain.start, rfl, hcall.enter, by simp, Constants.describes_nil _,
    List.drop_suffix _ _⟩

/-- The summaries of an accepted program are contracts.  Whenever a call enters a subroutine, that
has one summary, the stack holds the items that it needs, and whatever lies below them stays as it
is until the call has returned or the run has ended.  Where the call returns, the stack is as high
as the summary says.  If the subroutine reaches no recursion, the stack never rises above its
peak. -/
theorem summary_of_call {t : State} {report : Report} (hvalid : validate job = .ok report)
    (haccepted : report.verdict = .accepted) (htraverse : traverse job = .ok () t)
    (hjob : job.RunsOn host) (hs : Reachable host s) (henters : Enters host s entered) :
    ∃ σ ∈ report.subroutines, σ.entry = entered.pc ∧
      (∀ τ ∈ report.subroutines, τ.entry = entered.pc → τ = σ) ∧
      σ.needs ≤ entered.stack.height ∧
      (∀ s', Touches host entered s' →
        s'.stack.toList.take (entered.stack.height - σ.needs).toNat =
          entered.stack.toList.take (entered.stack.height - σ.needs).toNat) ∧
      (∀ s', Returning host entered s' →
        ∃ net, σ.net = some net ∧ (s'.stack.height : Int) = entered.stack.height + net) ∧
      ((∀ g, Relation.ReflTransGen t.frames.Calls (.entry entered.pc) g →
          ¬ Relation.TransGen t.frames.Calls g g) →
        ∀ s', Touches host entered s' →
          (s'.stack.height : Int) ≤ entered.stack.height + σ.peak) := by
  obtain ⟨t', need, peak, ht', hc, hsummaries⟩ := contract_of_validate hvalid haccepted
  obtain rfl : t' = t := by simpa [htraverse] using ht'.symm
  have htraversed := traversed_of_traverse htraverse
  have hnodup := htraversed.justified.nodup
  obtain ⟨hcall, hnonneg, hneed, hentered⟩ := hc.enters hjob hs henters
  obtain ⟨F, hF⟩ := Option.ne_none_iff_exists'.1 (htraversed.opened_iff.2 hcall)
  have hkeep : ((entered.stack.items.drop (need (.entry entered.pc)).toNat).length : Int) =
      entered.stack.items.length - need (.entry entered.pc) := by
    rw [List.length_drop]
    omega
  have hbounds : ∀ {s'}, Touches host entered s' → _ :=
    fun hs' => bounds_of_touches hc hjob (Int.le_of_eq hkeep) hentered hs'
  refine ⟨⟨entered.pc, need (.entry entered.pc), F.net, peak (.entry entered.pc)⟩, ?_, rfl, ?_, ?_,
    ?_, ?_, ?_⟩
  · rw [hsummaries]
    exact (mem_summaries_iff hnodup).2 ⟨F, hF, rfl⟩
  · intro τ hτ hentry
    rw [hsummaries] at hτ
    obtain ⟨G, hG, hτ⟩ := (mem_summaries_iff hnodup).1 hτ
    rw [hentry] at hG hτ
    rw [hF] at hG
    cases hG
    exact hτ
  · rw [Stack.height_eq]
    exact hneed
  · intro s' hs'
    -- what is kept is the bottom of the stack in every state of the call, the first included
    have hsame : ∀ {s'}, Touches host entered s' →
        s'.stack.toList.take (entered.stack.height - need (.entry entered.pc)).toNat =
          (entered.stack.items.drop (need (.entry entered.pc)).toNat).reverse := by
      intro s' hs'
      rw [← take_toList_of_suffix (hbounds hs').1, Stack.height_eq, ← hkeep, Int.toNat_natCast]
    rw [hsame hs', hsame (Or.inl During.entry)]
  · intro s' hreturning
    obtain ⟨net, hret, hheight⟩ := ret_of_returning hreturning hc hjob
      (follows_of_during hc hjob (Int.le_of_eq hkeep) hentered hreturning.during)
    obtain ⟨G, hG, hnet⟩ := htraversed.net_eq_some_iff.2 hret
    rw [hF] at hG
    cases hG
    rw [Stack.height_eq, Stack.height_eq]
    exact ⟨net, hnet, hheight⟩
  · intro hacyclic s' hs'
    rw [Stack.height_eq, Stack.height_eq]
    exact (hbounds hs').2 hacyclic

namespace Sample

/-- The state at the call of the negating program. -/
def atCall : Machine.State where
  pc := 4
  stack := (Stack.empty.push (Word.ofNat 7)).push (Word.ofNat 5)
  steps := 2

/-- The state behind it. -/
def atEntry : Machine.State :=
  { atCall with pc := 9, calls := ReturnStack.empty.push 8, steps := 3 }

/-- The state at the matching return. -/
def atReturn : Machine.State :=
  { atEntry with
    pc := 11
    stack := (Stack.empty.push (Word.ofNat 7)).push (Word.ofNat 0)
    steps := 5 }

theorem reachable_atCall : Reachable negatingHost atCall := by
  have hfirst : Machine.Advances negatingHost {}
      { pc := 2, stack := Stack.empty.push (Word.ofNat 7), steps := 1 } :=
    ⟨2, { stack := Stack.empty.push (Word.ofNat 7), steps := 1 }, ⟨_, by decide, rfl, rfl⟩, rfl⟩
  have hsecond : Machine.Advances negatingHost
      { pc := 2, stack := Stack.empty.push (Word.ofNat 7), steps := 1 } atCall :=
    ⟨4, { atCall with pc := 2 }, ⟨_, by decide, rfl, rfl⟩, rfl⟩
  exact (Relation.ReflTransGen.single hfirst).tail hsecond

theorem enters_atEntry : Enters negatingHost atCall atEntry :=
  ⟨⟨9, { atEntry with pc := 4 }, ⟨_, by decide, rfl, rfl⟩, rfl⟩, _, rfl, rfl⟩

theorem returning_atReturn : Returning negatingHost atEntry atReturn := by
  have hbegin : Machine.Advances negatingHost atEntry { atEntry with pc := 10, steps := 4 } :=
    ⟨10, { atEntry with steps := 4 }, ⟨_, by decide, rfl, rfl⟩, rfl⟩
  have hnegate : Machine.Advances negatingHost { atEntry with pc := 10, steps := 4 } atReturn :=
    ⟨11, { atReturn with pc := 10 }, ⟨_, by decide, rfl, rfl⟩, rfl⟩
  exact ⟨(During.entry.step hbegin (Nat.le_refl _)).step hnegate (Nat.le_refl _), rfl, by decide,
    _, rfl, rfl⟩

end Sample

theorem summary_of_call_negating :
    ∃ σ : Summary, σ ∈ [(⟨9, 1, some 0, 0⟩ : Summary)] ∧ σ.entry = Sample.atEntry.pc ∧
      σ.needs ≤ Sample.atEntry.stack.height ∧
      (∀ s, Touches Sample.negatingHost Sample.atEntry s →
        s.stack.toList.take (2 - σ.needs).toNat =
          Sample.atEntry.stack.toList.take (2 - σ.needs).toNat ∧
        (s.stack.height : Int) ≤ 2 + σ.peak) ∧
      ∃ net, σ.net = some net ∧ (Sample.atReturn.stack.height : Int) = 2 + net := by
  have hjob : Sample.negating.RunsOn Sample.negatingHost := ⟨rfl, rfl⟩
  obtain ⟨σ, hσ, hentry, -, hneeds, hkept, hreturn, hpeak⟩ :=
    summary_of_call Sample.validate_negating rfl Sample.traverse_negating hjob
      Sample.reachable_atCall Sample.enters_atEntry
  exact ⟨σ, hσ, hentry, hneeds,
    fun s hs => ⟨hkept s hs, hpeak (fun g _ => Sample.acyclic_negating g) s hs⟩,
    hreturn _ Sample.returning_atReturn⟩

end FlowCheck.Validator
