import FlowCheck.Proofs.Iterations
import Mathlib

/-!
# Where a run can be

Every run keeps its program counter at an instruction boundary or behind the code, whatever values it
computes and whether or not the program was validated.  A return takes the counter that it goes to
from the return stack without looking at it, so the invariant has to say what the return stack holds:
the resumption points of the calls executed so far that no return has matched (`pendingCalls`).

Which calls are pending is said of the executed instructions alone.  A call is matched by the first
return behind it that no call in between takes, so it is pending as long as no stretch of
instructions right behind it has more returns than calls (`Unmatched`).
-/

namespace FlowCheck

/-! ## Matching calls and returns -/

namespace Instruction

/-- The number of calls among some instructions. -/
def callCount (l : List Instruction) : Nat :=
  l.countP (fun i => i.descriptor.kind = .jumpsub)

/-- The number of returns among some instructions. -/
def returnCount (l : List Instruction) : Nat :=
  l.countP (fun i => i.descriptor.kind = .returnsub)

/-- A call is unmatched by the instructions behind it. -/
def Unmatched (later : List Instruction) : Prop :=
  ∀ stretch ∈ later.inits, returnCount stretch ≤ callCount stretch

instance (later : List Instruction) : Decidable (Unmatched later) :=
  inferInstanceAs (Decidable (∀ stretch ∈ later.inits, returnCount stretch ≤ callCount stretch))

/-- The resumption points of the calls that no return has matched, the oldest first. -/
def pendingCalls : List Instruction → List Nat
  | [] => []
  | i :: later =>
      if i.descriptor.kind = .jumpsub ∧ Unmatched later then i.next :: pendingCalls later
      else pendingCalls later

/-- The returns that the calls in front of them leave unmatched. -/
def strayReturns : List Instruction → Nat
  | [] => 0
  | i :: later =>
      if i.descriptor.kind = .jumpsub then strayReturns later - 1
      else if i.descriptor.kind = .returnsub then strayReturns later + 1
      else strayReturns later

variable {i : Instruction} {l stretch : List Instruction}

theorem returnCount_le (h : stretch <+: l) :
    returnCount stretch ≤ callCount stretch + strayReturns l := by
  induction l generalizing stretch with
  | nil =>
      rw [List.prefix_nil.1 h]
      simp [returnCount]
  | cons i later ih =>
      cases stretch with
      | nil => simp [returnCount]
      | cons j stretch =>
          obtain ⟨rfl, hlater⟩ := List.cons_prefix_cons.1 h
          have hbound := ih hlater
          by_cases hcall : j.descriptor.kind = .jumpsub
          · simp only [returnCount, callCount, strayReturns, List.countP_cons, hcall] at hbound ⊢
            simp
            omega
          · by_cases hreturn : j.descriptor.kind = .returnsub
            · simp only [returnCount, callCount, strayReturns, List.countP_cons, hreturn] at hbound ⊢
              simp
              omega
            · simp only [returnCount, callCount, strayReturns, List.countP_cons, hcall,
                hreturn] at hbound ⊢
              simpa using hbound

theorem exists_stretch (l : List Instruction) :
    ∃ stretch, stretch <+: l ∧ callCount stretch + strayReturns l ≤ returnCount stretch := by
  induction l with
  | nil => exact ⟨[], List.nil_prefix, Nat.le_refl 0⟩
  | cons i later ih =>
      obtain ⟨stretch, hprefix, hstray⟩ := ih
      by_cases hcall : i.descriptor.kind = .jumpsub
      · -- a call takes one stray return, unless there is none to take
        by_cases hzero : strayReturns later = 0
        · exact ⟨[], List.nil_prefix, by simp [strayReturns, hcall, hzero, callCount]⟩
        · refine ⟨i :: stretch, List.cons_prefix_cons.2 ⟨rfl, hprefix⟩, ?_⟩
          simp only [returnCount, callCount, strayReturns, List.countP_cons, hcall] at hstray ⊢
          simp
          omega
      · refine ⟨i :: stretch, List.cons_prefix_cons.2 ⟨rfl, hprefix⟩, ?_⟩
        by_cases hreturn : i.descriptor.kind = .returnsub
        · simp only [returnCount, callCount, strayReturns, List.countP_cons, hreturn] at hstray ⊢
          simp
          omega
        · simp only [returnCount, callCount, strayReturns, List.countP_cons, hcall,
            hreturn] at hstray ⊢
          simpa using hstray

theorem unmatched_iff : Unmatched l ↔ strayReturns l = 0 := by
  constructor
  · intro h
    obtain ⟨stretch, hprefix, hstray⟩ := exists_stretch l
    have hcount := h stretch ((List.mem_inits _ _).2 hprefix)
    omega
  · intro hzero stretch hmem
    have hcount := returnCount_le ((List.mem_inits _ _).1 hmem)
    omega

theorem pendingCalls_cons (i : Instruction) (later : List Instruction) :
    pendingCalls (i :: later) =
      if i.descriptor.kind = .jumpsub ∧ strayReturns later = 0 then i.next :: pendingCalls later
      else pendingCalls later := by
  rw [pendingCalls]
  simp only [unmatched_iff]

/-- An instruction that neither calls nor returns changes nothing. -/
theorem matching_concat (hcall : i.descriptor.kind ≠ .jumpsub)
    (hreturn : i.descriptor.kind ≠ .returnsub) (l : List Instruction) :
    strayReturns (l ++ [i]) = strayReturns l ∧ pendingCalls (l ++ [i]) = pendingCalls l := by
  induction l with
  | nil => simp [strayReturns, pendingCalls, hcall, hreturn]
  | cons j later ih =>
      obtain ⟨hstray, hpending⟩ := ih
      constructor
      · rw [List.cons_append, strayReturns, strayReturns, hstray]
      · rw [List.cons_append, pendingCalls_cons, pendingCalls_cons, hstray, hpending]

/-- A call is pending as soon as it is executed. -/
theorem matching_concat_call (hcall : i.descriptor.kind = .jumpsub) (l : List Instruction) :
    strayReturns (l ++ [i]) = strayReturns l ∧
      pendingCalls (l ++ [i]) = pendingCalls l ++ [i.next] := by
  induction l with
  | nil => simp [strayReturns, pendingCalls_cons, pendingCalls, hcall]
  | cons j later ih =>
      obtain ⟨hstray, hpending⟩ := ih
      constructor
      · rw [List.cons_append, strayReturns, strayReturns, hstray]
      · rw [List.cons_append, pendingCalls_cons, pendingCalls_cons, hstray, hpending]
        split <;> rfl

/-- A return matches the call that became pending last, if there is one. -/
theorem matching_concat_return (hreturn : i.descriptor.kind = .returnsub) (l : List Instruction) :
    strayReturns (l ++ [i]) = strayReturns l + (if pendingCalls l = [] then 1 else 0) ∧
      pendingCalls (l ++ [i]) = (pendingCalls l).dropLast := by
  induction l with
  | nil => simp [strayReturns, pendingCalls_cons, pendingCalls, hreturn]
  | cons j later ih =>
      obtain ⟨hstray, hpending⟩ := ih
      rw [List.cons_append]
      by_cases hcall : j.descriptor.kind = .jumpsub ∧ strayReturns later = 0
      · -- the call in front is pending, and the return is for it if none is pending behind it
        by_cases hnone : pendingCalls later = []
        · simp [strayReturns, pendingCalls_cons, hcall, hstray, hpending, hnone]
        · simp [strayReturns, pendingCalls_cons, hcall, hstray, hpending, hnone,
            List.dropLast_cons_of_ne_nil hnone]
      · have hbefore : pendingCalls (j :: later) = pendingCalls later := by
          rw [pendingCalls_cons, if_neg hcall]
        have hafter : pendingCalls (j :: (later ++ [i])) = pendingCalls (later ++ [i]) := by
          rw [pendingCalls_cons, if_neg]
          intro h
          have hzero := h.2
          exact hcall ⟨h.1, by omega⟩
        rw [hbefore, hafter, strayReturns, strayReturns, hstray]
        refine ⟨?_, hpending⟩
        by_cases hkind : j.descriptor.kind = .jumpsub
        · have hsome : strayReturns later ≠ 0 := fun hzero => hcall ⟨hkind, hzero⟩
          rw [if_pos hkind, if_pos hkind]
          omega
        · rw [if_neg hkind, if_neg hkind]
          split <;> omega

end Instruction

namespace Machine

open Instruction

variable {host : Host} {budget : Amount} {i : Instruction} {s s' : State} {past : List State}

/-- The instructions executed in some iterations. -/
def executed (host : Host) (past : List State) : List Instruction :=
  past.filterMap (fun s => (host.program.decode s.pc).toOption)

theorem executed_concat (hi : host.program.decode s.pc = .ok i) (past : List State) :
    executed host (past ++ [s]) = executed host past ++ [i] := by
  simp [executed, List.filterMap_append, hi, Except.toOption]

/-! ## One instruction -/

/-- What an instruction does to the counter and the return stack. -/
inductive Moves (host : Host) (i : Instruction) (s s' : State) : Prop
  | stays (hcall : i.descriptor.kind ≠ .jumpsub) (hreturn : i.descriptor.kind ≠ .returnsub)
      (hcalls : s'.calls = s.calls)
      (hpc : s'.pc = i.next ∨ host.program.isJumpdest s'.pc = true)
  | calls (hcall : i.descriptor.kind = .jumpsub) (hpc : host.program.isEntry s'.pc = true)
      (hcalls : s'.calls = s.calls.push i.next)
      (hroom : (s.calls.stack.height : Int) < host.returnLimit.ceil)
  | returns (hreturn : i.descriptor.kind = .returnsub)
      (hpop : s.calls.pop? = some (s'.pc, s'.calls))

theorem Advances.moves (h : Advances host s s') :
    ∃ i, s.pc < host.program.length ∧ host.program.decode s.pc = .ok i ∧ Moves host i s s' := by
  obtain ⟨pc, s₁, hleaves, rfl⟩ := h
  obtain ⟨i, hpc, hi, heffect⟩ := hleaves.effect
  refine ⟨i, hpc, hi, ?_⟩
  cases heffect with
  | computed hkind _ hcalls =>
      exact .stays (by rcases hkind with h | h <;> simp [h]) (by rcases hkind with h | h <;> simp [h])
        hcalls (Or.inl rfl)
  | began hkind _ hcalls => exact .stays (by simp [hkind]) (by simp [hkind]) hcalls (Or.inl rfl)
  | jumped hkind _ _ hmarker _ hcalls =>
      exact .stays (by rcases hkind with h | h <;> simp [h]) (by rcases hkind with h | h <;> simp [h])
        hcalls (Or.inr hmarker)
  | fell hkind _ hcalls => exact .stays (by simp [hkind]) (by simp [hkind]) hcalls (Or.inl rfl)
  | called hkind _ hentry _ hcalls hroom => exact .calls hkind hentry hcalls hroom
  | returned hkind hpop _ => exact .returns hkind hpop

/-! ## Runs -/

/-- The control invariant of a run at an iteration, with the iterations before it. -/
structure Controlled (host : Host) (past : List State) (s : State) : Prop where
  counter : host.program.Stands s.pc
  calls : s.calls.stack.toList = pendingCalls (executed host past)
  resumptions : ∀ pc ∈ s.calls.stack.toList, host.program.Stands pc
  room : (s.calls.stack.height : Int) ≤ max 0 host.returnLimit.ceil
  highest : ∀ t ∈ past ++ [s], t.calls.stack.height ≤ s.calls.peak
  reached : ∃ t ∈ past ++ [s], t.calls.stack.height = s.calls.peak

theorem controlled_start (host : Host) : Controlled host [] {} where
  counter := host.program.stands_zero
  calls := rfl
  resumptions := by simp [ReturnStack.empty, Stack.empty, Stack.toList]
  room := by
    show ((0 : Nat) : Int) ≤ max 0 host.returnLimit.ceil
    omega
  highest t ht := by
    obtain rfl : t = {} := by simpa using ht
    exact Nat.le_refl 0
  reached := ⟨{}, by simp, rfl⟩

namespace Controlled

/-- The greatest height so far is kept by every change that does not exceed it. -/
theorem peaks (h : Controlled host past s) (hpeak : s'.calls.peak = s.calls.peak)
    (hheight : s'.calls.stack.height ≤ s.calls.peak) :
    (∀ t ∈ past ++ [s] ++ [s'], t.calls.stack.height ≤ s'.calls.peak) ∧
      ∃ t ∈ past ++ [s] ++ [s'], t.calls.stack.height = s'.calls.peak := by
  rw [hpeak]
  constructor
  · intro t ht
    rcases List.mem_append.1 ht with ht | ht
    · exact h.highest t ht
    · obtain rfl : t = s' := by simpa using ht
      exact hheight
  · obtain ⟨t, ht, hreached⟩ := h.reached
    exact ⟨t, List.mem_append_left _ ht, hreached⟩

theorem stays (h : Controlled host past s) (hpc : s.pc < host.program.length)
    (hi : host.program.decode s.pc = .ok i) (hcall : i.descriptor.kind ≠ .jumpsub)
    (hreturn : i.descriptor.kind ≠ .returnsub) (hcalls : s'.calls = s.calls)
    (hpc' : s'.pc = i.next ∨ host.program.isJumpdest s'.pc = true) :
    Controlled host (past ++ [s]) s' := by
  have hheight : s'.calls.stack.height ≤ s.calls.peak := by
    rw [hcalls]
    exact h.highest s (by simp)
  obtain ⟨hhighest, hreached⟩ := h.peaks (by rw [hcalls]) hheight
  refine ⟨?_, ?_, ?_, ?_, hhighest, hreached⟩
  · rcases hpc' with hnext | hmarker
    · rw [hnext]
      exact Program.stands_next hpc hi
    · change host.program.hasMarker .jumpdest s'.pc = true at hmarker
      exact Program.stands_of_hasMarker hmarker
  · rw [hcalls, h.calls, executed_concat hi, (matching_concat hcall hreturn _).2]
  · rw [hcalls]
    exact h.resumptions
  · rw [hcalls]
    exact h.room

theorem called (h : Controlled host past s) (hpc : s.pc < host.program.length)
    (hi : host.program.decode s.pc = .ok i) (hcall : i.descriptor.kind = .jumpsub)
    (hentry : host.program.isEntry s'.pc = true) (hcalls : s'.calls = s.calls.push i.next)
    (hroom : (s.calls.stack.height : Int) < host.returnLimit.ceil) :
    Controlled host (past ++ [s]) s' := by
  have hlist : s'.calls.stack.toList = s.calls.stack.toList ++ [i.next] := by
    rw [hcalls]
    exact Stack.toList_push _ _
  have hheight : s'.calls.stack.height = s.calls.stack.height + 1 := by
    rw [hcalls]
    rfl
  have hpeak : s'.calls.peak = max s.calls.peak (s.calls.stack.height + 1) := by
    rw [hcalls]
    rfl
  refine ⟨?_, ?_, ?_, ?_, ?_, ?_⟩
  · exact Program.stands_of_hasMarker (show host.program.hasMarker .entry s'.pc = true from hentry)
  · rw [hlist, h.calls, executed_concat hi, (matching_concat_call hcall _).2]
  · intro pc hmem
    rw [hlist] at hmem
    rcases List.mem_append.1 hmem with hmem | hmem
    · exact h.resumptions pc hmem
    · obtain rfl : pc = i.next := by simpa using hmem
      exact Program.stands_next hpc hi
  · rw [hheight]
    omega
  · intro t ht
    rcases List.mem_append.1 ht with ht | ht
    · have hbefore := h.highest t ht
      omega
    · obtain rfl : t = s' := by simpa using ht
      omega
  · -- the new height is the greatest, or the greatest one was reached before
    rcases Nat.le_total s.calls.peak (s.calls.stack.height + 1) with hle | hle
    · exact ⟨s', by simp, by omega⟩
    · obtain ⟨t, ht, hreached⟩ := h.reached
      exact ⟨t, List.mem_append_left _ ht, by omega⟩

theorem returned (h : Controlled host past s) (hi : host.program.decode s.pc = .ok i)
    (hreturn : i.descriptor.kind = .returnsub)
    (hpop : s.calls.pop? = some (s'.pc, s'.calls)) : Controlled host (past ++ [s]) s' := by
  have hitems := calls_of_pop? hpop
  have hlist : s.calls.stack.toList = s'.calls.stack.toList ++ [s'.pc] := by
    rw [Stack.toList, hitems, List.reverse_cons]
    rfl
  have hheight : s.calls.stack.height = s'.calls.stack.height + 1 := by
    rw [s.calls.stack.height_eq, s'.calls.stack.height_eq, hitems, List.length_cons]
  have hpeak : s'.calls.peak = s.calls.peak := by
    unfold ReturnStack.pop? at hpop
    obtain ⟨r, -, hr⟩ := Option.map_eq_some_iff.1 hpop
    rw [← (Prod.mk.inj hr).2]
  have hbefore := h.highest s (by simp)
  obtain ⟨hhighest, hreached⟩ := h.peaks hpeak (by omega)
  refine ⟨?_, ?_, ?_, ?_, hhighest, hreached⟩
  · exact h.resumptions _ (by rw [hlist]; simp)
  · rw [executed_concat hi, (matching_concat_return hreturn _).2, ← h.calls, hlist,
      List.dropLast_concat]
  · intro pc hmem
    exact h.resumptions pc (by rw [hlist]; exact List.mem_append_left _ hmem)
  · have hroom := h.room
    omega

/-- One instruction keeps the control invariant. -/
theorem advance (h : Controlled host past s) (hadvance : Advances host s s') :
    Controlled host (past ++ [s]) s' := by
  obtain ⟨i, hpc, hi, hmoves⟩ := hadvance.moves
  cases hmoves with
  | stays hcall hreturn hcalls hpc' => exact h.stays hpc hi hcall hreturn hcalls hpc'
  | calls hcall hentry hcalls hroom => exact h.called hpc hi hcall hentry hcalls hroom
  | returns hreturn hpop => exact h.returned hi hreturn hpop

end Controlled

theorem Passed.controlled (h : Passed host past s) : Controlled host past s := by
  induction h with
  | start => exact controlled_start host
  | step h hadvance ih => exact ih.advance hadvance

/-! ## Faults -/

/-- A fault names an instruction boundary inside the code and the byte found there, and is not about
a counter that no instruction can have. -/
structure Placed (p : Program) (f : Fault) : Prop where
  place : ∃ pc, pc < p.length ∧ p.isBoundary pc = true ∧ FaultsAt p pc f
  decoded : ∀ cause, f.cause = .undecodable cause → cause = .unrecognised

theorem FaultsAt.placed {p : Program} {pc : Nat} {f : Fault} (h : FaultsAt p pc f)
    (hs : p.Stands pc) (hdecoded : ∀ cause, f.cause = .undecodable cause → cause = .unrecognised) :
    Placed p f := by
  have hpc : pc < p.length := by
    obtain ⟨-, b, o, hb, -⟩ := h
    exact (Array.getElem?_eq_some_iff.1 hb).1
  exact ⟨⟨pc, hpc, hs.resolve_right (Nat.not_le.2 hpc), h⟩, hdecoded⟩

theorem Ends.placed {f : Fault} {o : Outcome} (h : Ends host budget s o) (hwithin : Within host s)
    (hs : host.program.Stands s.pc) (hf : o.ending = .faulted f) : Placed host.program f := by
  cases h with
  | undecodable hdecode =>
      cases hf
      obtain ⟨b, -, hb, rfl⟩ := Program.decode_error_of_stands hs hdecode
      refine FaultsAt.placed ⟨rfl, b, .byte b.toNat, hb, rfl, rfl⟩ hs ?_
      intro cause heq
      cases heq
      rfl
  | endOfCode => cases hf
  | @outOfSteps i hpc hdecode =>
      cases hf
      exact (faultsAt_faultAt hpc hdecode _).placed hs nofun
  | faulted hleaves =>
      cases hf
      obtain ⟨-, -, hfault⟩ := hleaves.steady hwithin
      obtain ⟨hat, hcause⟩ := hfault f rfl
      refine hat.placed hs ?_
      intro cause heq
      rw [heq] at hcause
      exact hcause.elim
  | halted => cases hf

/-- At every iteration of every run the counter is an instruction boundary or behind the code; the
return stack holds the resumption points of the pending calls, oldest first, each of them a boundary
or behind the code; it is within its limit, and its peak is the greatest height it has had.  An
instruction that fails leaves all of that alone, so the end of a run has the return stack of its last
iteration.  And a fault names a boundary inside the code with the byte found there. -/
theorem control_of_run (host : Host) (budget : Amount) :
    (∀ past s rest, iterations host budget.ceil.toNat {} = past ++ s :: rest →
      Controlled host past s ∧ ∀ f s', Leaves host s (.error f) s' → s'.calls = s.calls) ∧
    (∃ past last, iterations host budget.ceil.toNat {} = past ++ [last] ∧
      Ends host budget last (run host budget) ∧ (run host budget).state.calls = last.calls) ∧
    ∀ f, (run host budget).ending = .faulted f → Placed host.program f := by
  obtain ⟨before, last, hiterations, hends⟩ := iterations_ends host budget budget.ceil.toNat {}
  change Ends host budget last (run host budget) at hends
  refine ⟨?_, ⟨before, last, hiterations, hends, ?_⟩, ?_⟩
  · intro past s rest h
    obtain ⟨hpassed, -⟩ := passed_of_iterations .start h
    refine ⟨hpassed.controlled, ?_⟩
    intro f s' hleaves
    obtain ⟨i, -, -, hfails⟩ := hleaves.fails
    exact hfails.calls
  · rcases hends.state with hstate | ⟨-, hcalls⟩
    · rw [hstate]
    · exact hcalls
  · intro f hf
    obtain ⟨hpassed, -⟩ := passed_of_iterations .start hiterations
    exact hends.placed hpassed.within.1 hpassed.controlled.counter hf

namespace Sample

/-- A subroutine at the end of the code that calls itself until the return stack is full. -/
def nesting : Host where
  program := Program.ofCode .immediate #[0x5d, 0x00, 0x00, 0x04, 0x5c, 0x5d, 0x00, 0x00, 0x04]
  returnLimit := .whole 2

theorem run_nesting :
    (run nesting (.whole 10)).ending =
      .faulted ⟨.returnStackFull (.whole 2), some 5, some (.opcode .jumpsub)⟩ := by
  cbv

end Sample

theorem control_of_run_nesting :
    (∃ past last, iterations Sample.nesting 10 {} = past ++ [last] ∧
      Controlled Sample.nesting past last ∧
      last.calls.stack.toList = pendingCalls (executed Sample.nesting past)) ∧
    Placed Sample.nesting.program
      ⟨.returnStackFull (.whole 2), some 5, some (.opcode .jumpsub)⟩ := by
  obtain ⟨hcontrolled, ⟨past, last, hiterations, -⟩, hplaced⟩ :=
    control_of_run Sample.nesting (.whole 10)
  have hlast := (hcontrolled past last [] hiterations).1
  exact ⟨⟨past, last, hiterations, hlast, hlast.calls⟩, hplaced _ Sample.run_nesting⟩

end Machine

end FlowCheck
