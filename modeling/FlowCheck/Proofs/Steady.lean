import FlowCheck.Proofs.Runs

/-!
# What a step holds steady

While an instruction is executed the program counter and the count of steps stay where they are, the
data stack and the memory stay within their limits, and a fault names the place of the instruction
and the byte found there.  Every action of the machine keeps this (`Keeps`), so a step does, however
it ends (`Leaves.steady`).
-/

namespace FlowCheck

namespace Memory

theorem size_grow (m : Memory) (n : Nat) : (m.grow n).size = max m.size (roundUp n) := by
  simp only [size, grow, Array.size_append, Array.size_replicate]
  omega

theorem size_writeFrom (bytes : Array UInt8) (offset : Nat) (bs : List UInt8) :
    (writeFrom bytes offset bs).size = bytes.size := by
  induction bs generalizing bytes offset with
  | nil => rfl
  | cons b rest ih => rw [writeFrom, ih, Array.size_setIfInBounds]

theorem size_write (m : Memory) (offset : Nat) (bs : List UInt8) :
    (m.write offset bs).size = m.size :=
  size_writeFrom m.bytes offset bs

theorem le_roundUp (n : Nat) : n ≤ roundUp n := by
  unfold roundUp
  omega

theorem roundUp_mono {m n : Nat} (h : m ≤ n) : roundUp m ≤ roundUp n := by
  unfold roundUp
  exact Nat.mul_le_mul_right 32 (Nat.div_le_div_right (by omega))

/-- Memory in whole words, no more of them than cover the limit. -/
structure Fits (m : Memory) (limit : Amount) : Prop where
  words : 32 ∣ m.size
  bound : m.size ≤ roundUp limit.floor.toNat

theorem fits_empty (limit : Amount) : empty.Fits limit :=
  ⟨Nat.dvd_zero 32, Nat.zero_le _⟩

theorem Fits.grow {m : Memory} {limit : Amount} {n : Nat} (h : m.Fits limit)
    (hn : ¬ limit.floor < n) : (m.grow n).Fits limit := by
  have hwords : 32 ∣ roundUp n := ⟨(n + 31) / 32, Nat.mul_comm _ _⟩
  have hbound : roundUp n ≤ roundUp limit.floor.toNat := roundUp_mono (by omega)
  constructor
  · rw [size_grow]
    rcases Nat.le_total m.size (roundUp n) with hle | hle
    · rw [Nat.max_eq_right hle]
      exact hwords
    · rw [Nat.max_eq_left hle]
      exact h.words
  · rw [size_grow]
    exact Nat.max_le.2 ⟨h.bound, hbound⟩

theorem Fits.write {m : Memory} {limit : Amount} (h : m.Fits limit) (offset : Nat)
    (bs : List UInt8) : (m.write offset bs).Fits limit := by
  constructor
  · rw [size_write]
    exact h.words
  · rw [size_write]
    exact h.bound

end Memory

namespace Machine

variable {host : Host} {i : Instruction} {s s' : State} {pc steps : Nat} {α β : Type}

theorem height_of_pop? {t rest : Stack α} {a : α} (h : t.pop? = some (a, rest)) :
    t.height = rest.height + 1 := by
  rw [t.height_eq, rest.height_eq, items_of_pop? h, List.length_cons]

theorem height_swap (t : Stack α) (depth : Nat) : (t.swap depth).height = t.height := by
  unfold Stack.swap
  split <;> rfl

/-- The limits on the data stack and the memory of a run. -/
structure Within (host : Host) (s : State) : Prop where
  height : (s.stack.height : Int) ≤ max 0 host.stackLimit.ceil
  memory : s.memory.Fits host.memoryLimit

/-- A state while the instruction at a counter is executed. -/
structure Steady (host : Host) (pc steps : Nat) (s : State) : Prop where
  inside : pc < host.program.length
  counter : s.pc = pc
  count : s.steps = steps
  within : Within host s

/-- A fault at a counter, which names the byte found there. -/
def FaultsAt (p : Program) (pc : Nat) (f : Fault) : Prop :=
  f.pc = some (pc : Int) ∧ ∃ b o, p.code[pc]? = some b ∧ f.offender = some o ∧ o.value = b.toNat

/-- A cause that an instruction names when it fails, and that is as it says. -/
def Truthful (host : Host) : FaultCause → Prop
  | .undecodable _ => False
  | .memoryLimit size _ => host.memoryLimit.floor < size
  | .valueNotWhole => host.callValue = none
  | _ => True

theorem Steady.faultsAt (h : Steady host pc steps s) (cause : FaultCause) :
    FaultsAt host.program pc (s.fault host cause) := by
  obtain ⟨b, hb⟩ : ∃ b, host.program.code[pc]? = some b :=
    ⟨_, Array.getElem?_eq_getElem h.inside⟩
  refine ⟨?_, b, .byte b.toNat, hb, ?_, rfl⟩
  · rw [State.fault, h.counter]
  · simp only [State.fault, h.counter, hb, Option.map_some]

theorem faultsAt_faultAt (hpc : pc < host.program.length) (hi : host.program.decode pc = .ok i)
    (cause : FaultCause) : FaultsAt host.program pc (faultAt i cause) := by
  refine ⟨?_, i.opcode.toByte, i.offender, (Program.decode_byte hpc hi).2, rfl, rfl⟩
  rw [faultAt, Program.decode_pc hi]

/-! ## Actions -/

/-- An action of the instruction at a counter keeps what a step holds steady, however it ends, and
faults at that counter. -/
def Keeps (host : Host) (pc steps : Nat) (m : Action α) : Prop :=
  ∀ s, Steady host pc steps s → Ensures m s (fun _ s' => Steady host pc steps s')
    (fun f s' => Steady host pc steps s' ∧ FaultsAt host.program pc f ∧ Truthful host f.cause)

theorem Keeps.pure (a : α) : Keeps host pc steps (Pure.pure a : Action α) :=
  fun _ h => Ensures.of_pure h

theorem Keeps.throw {f : Fault} (hf : FaultsAt host.program pc f) (hcause : Truthful host f.cause) :
    Keeps host pc steps (throw f : Action α) :=
  fun _ h => Ensures.of_throw ⟨h, hf, hcause⟩

theorem Keeps.get : Keeps host pc steps (get : Action State) :=
  fun _ h => Ensures.of_get h

theorem Keeps.bind {m : Action α} {k : α → Action β} (hm : Keeps host pc steps m)
    (hk : ∀ a, Keeps host pc steps (k a)) : Keeps host pc steps (m >>= k) := by
  intro s h
  exact Ensures.of_bind ((hm s h).mono (fun a s' hs' => hk a s' hs') (fun _ _ hbad => hbad))

theorem keeps_push (w : Word) : Keeps host pc steps (push host w) := by
  intro s h
  unfold push
  refine Ensures.of_bind (Ensures.of_get ?_)
  split
  · exact Ensures.of_throw ⟨h, h.faultsAt _, trivial⟩
  · rename_i hroom
    refine Ensures.of_set ⟨h.inside, h.counter, h.count, ?_, h.within.memory⟩
    simp only [Stack.height_push]
    omega

theorem keeps_pop : Keeps host pc steps (pop host) := by
  intro s h
  unfold pop
  refine Ensures.of_bind (Ensures.of_get ?_)
  cases hpop : s.stack.pop? with
  | none => exact Ensures.of_throw ⟨h, h.faultsAt _, trivial⟩
  | some r =>
      obtain ⟨w, rest⟩ := r
      have hheight := height_of_pop? hpop
      have hlimit := h.within.height
      refine Ensures.of_bind (Ensures.of_set (Ensures.of_pure
        ⟨h.inside, h.counter, h.count, ?_, h.within.memory⟩))
      show (rest.height : Int) ≤ max 0 host.stackLimit.ceil
      omega

theorem keeps_peek (depth : Nat) : Keeps host pc steps (peek host depth) := by
  intro s h
  unfold peek
  refine Ensures.of_bind (Ensures.of_get ?_)
  cases s.stack.peek? depth with
  | none => exact Ensures.of_throw ⟨h, h.faultsAt _, trivial⟩
  | some w => exact Ensures.of_pure h

theorem keeps_swap (depth : Nat) : Keeps host pc steps (swap host depth) := by
  refine Keeps.bind (keeps_peek depth) (fun _ s h => ?_)
  refine Ensures.of_modify ⟨h.inside, h.counter, h.count, ?_, h.within.memory⟩
  rw [height_swap]
  exact h.within.height

theorem keeps_touch (size : Nat) : Keeps host pc steps (touch host size) := by
  intro s h
  unfold touch
  refine Ensures.of_bind (Ensures.of_get ?_)
  split
  · rename_i hover
    exact Ensures.of_throw ⟨h, h.faultsAt _, hover⟩
  · rename_i hsize
    exact Ensures.of_set
      ⟨h.inside, h.counter, h.count, h.within.height, h.within.memory.grow hsize⟩

theorem keeps_readMemory (offset size : Nat) : Keeps host pc steps (readMemory host offset size) := by
  unfold readMemory
  split
  · exact Keeps.pure _
  · exact Keeps.bind (keeps_touch _) (fun _ => Keeps.bind Keeps.get (fun _ => Keeps.pure _))

theorem keeps_storeBytes (offset : Nat) (bs : List UInt8) :
    Keeps host pc steps (storeBytes host offset bs) := by
  refine Keeps.bind (keeps_touch _) (fun _ s h => ?_)
  exact Ensures.of_modify
    ⟨h.inside, h.counter, h.count, h.within.height, h.within.memory.write offset bs⟩

theorem keeps_haltWith (reason : HaltReason) : Keeps host pc steps (haltWith host reason) :=
  keeps_pop.bind (fun _ => keeps_pop.bind (fun _ =>
    (keeps_readMemory _ _).bind (fun _ => Keeps.pure _)))

/-! ## Instructions -/

section

variable (hpc : pc < host.program.length) (hi : host.program.decode pc = .ok i)

include hpc hi

theorem keeps_compute : Keeps host pc steps (compute host i) := by
  unfold compute
  cases i.opcode
  case push | pc | codesize | calldatasize => exact keeps_push _
  case unary | calldataload => exact keeps_pop.bind (fun _ => keeps_push _)
  case binary => exact keeps_pop.bind (fun _ => keeps_pop.bind (fun _ => keeps_push _))
  case ternary =>
    exact keeps_pop.bind (fun _ => keeps_pop.bind (fun _ => keeps_pop.bind (fun _ => keeps_push _)))
  case dup => exact (keeps_peek _).bind (fun _ => keeps_push _)
  case swap => exact keeps_swap _
  case pop => exact keeps_pop.bind (fun _ => Keeps.pure _)
  case jumpdest => exact Keeps.pure _
  case mload =>
    exact keeps_pop.bind (fun _ =>
      ((keeps_readMemory _ _).bind (fun _ => Keeps.pure _)).bind (fun _ => keeps_push _))
  case mstore | mstore8 =>
    exact keeps_pop.bind (fun _ => keeps_pop.bind (fun _ => keeps_storeBytes _ _))
  case msize => exact Keeps.get.bind (fun _ => keeps_push _)
  case callvalue =>
    cases hvalue : host.callValue with
    | some n => exact keeps_push _
    | none => exact Keeps.throw (faultsAt_faultAt hpc hi _) hvalue
  all_goals exact Keeps.throw (faultsAt_faultAt hpc hi _) trivial

theorem keeps_checkEdge (dest : Nat) : Keeps host pc steps (checkEdge host i dest) := by
  unfold checkEdge
  split
  · exact Keeps.throw (faultsAt_faultAt hpc hi _) trivial
  · exact Keeps.pure _

theorem keeps_checkJump (dest : Nat) : Keeps host pc steps (checkJump host i dest) := by
  refine (keeps_checkEdge hpc hi dest).bind (fun _ => ?_)
  split
  · exact Keeps.throw (faultsAt_faultAt hpc hi _) trivial
  · exact Keeps.pure _

theorem keeps_jump : Keeps host pc steps (jump host i) :=
  keeps_pop.bind (fun _ => (keeps_checkJump hpc hi _).bind (fun _ => Keeps.pure _))

theorem keeps_jumpIf : Keeps host pc steps (jumpIf host i) := by
  refine keeps_pop.bind (fun _ => keeps_pop.bind (fun _ => ?_))
  split
  · exact Keeps.pure _
  · exact (keeps_checkJump hpc hi _).bind (fun _ => Keeps.pure _)

theorem keeps_jumpSub : Keeps host pc steps (jumpSub host i) := by
  have htarget : Keeps host pc steps (callTarget host i) := by
    unfold callTarget
    split
    · exact Keeps.pure _
    · exact keeps_pop.bind (fun _ => (keeps_checkEdge hpc hi _).bind (fun _ => Keeps.pure _))
  unfold jumpSub
  refine htarget.bind (fun target => ?_)
  split
  · intro s h
    exact Ensures.of_bind (Ensures.of_throw ⟨h, faultsAt_faultAt hpc hi _, trivial⟩)
  · intro s h
    refine Ensures.of_bind (Ensures.of_get ?_)
    unfold pushReturn
    split
    · rename_i f hpush
      split at hpush <;> cases hpush
      exact Ensures.of_throw ⟨h, faultsAt_faultAt hpc hi _, trivial⟩
    · exact Ensures.of_bind (Ensures.of_set (Ensures.of_pure
        ⟨h.inside, h.counter, h.count, h.within.height, h.within.memory⟩))

theorem keeps_returnSub : Keeps host pc steps (returnSub i) := by
  intro s h
  unfold returnSub popReturn
  refine Ensures.of_bind (Ensures.of_get ?_)
  cases s.calls.pop? with
  | none => exact Ensures.of_throw ⟨h, faultsAt_faultAt hpc hi _, trivial⟩
  | some r =>
      exact Ensures.of_bind (Ensures.of_set (Ensures.of_pure
        ⟨h.inside, h.counter, h.count, h.within.height, h.within.memory⟩))

theorem keeps_step : Keeps host pc steps (step host i) := by
  unfold step control?
  cases i.descriptor.kind with
  | beginsub => exact (Keeps.pure _).bind (fun _ => Keeps.pure _)
  | jumpsub => exact (keeps_jumpSub hpc hi).bind (fun _ => Keeps.pure _)
  | returnsub => exact (keeps_returnSub hpc hi).bind (fun _ => Keeps.pure _)
  | jump => exact (keeps_jump hpc hi).bind (fun _ => Keeps.pure _)
  | jumpi => exact (keeps_jumpIf hpc hi).bind (fun _ => Keeps.pure _)
  | plain | terminal | push =>
      dsimp only
      split
      · exact Keeps.pure _
      · exact keeps_haltWith _
      · exact keeps_haltWith _
      · exact (keeps_compute hpc hi).bind (fun _ => Keeps.pure _)

end

/-- Whatever an instruction does, it counts as one step, keeps the limits, and faults at its own
place. -/
theorem Leaves.steady {next : Except Fault Next} (h : Leaves host s next s')
    (hs : Within host s) :
    s'.steps = s.steps + 1 ∧ Within host s' ∧
      ∀ f, next = .error f → FaultsAt host.program s.pc f ∧ Truthful host f.cause := by
  obtain ⟨i, hpc, hi, hrun⟩ := h
  have hstart : Steady host s.pc (s.steps + 1) { s with steps := s.steps + 1 } :=
    ⟨hpc, rfl, rfl, hs.height, hs.memory⟩
  have hkeeps := keeps_step hpc hi _ hstart
  cases next with
  | error f =>
      obtain ⟨hsteady, hfault⟩ := hkeeps.of_error hrun
      refine ⟨hsteady.count, hsteady.within, ?_⟩
      intro f' heq
      cases heq
      exact hfault
  | ok next =>
      have hsteady := hkeeps.of_ok hrun
      refine ⟨hsteady.count, hsteady.within, ?_⟩
      intro f heq
      cases heq

theorem Advances.within (h : Advances host s s') (hs : Within host s) :
    s'.steps = s.steps + 1 ∧ Within host s' := by
  obtain ⟨pc, s₁, hleaves, rfl⟩ := h
  obtain ⟨hcount, hkept, -⟩ := hleaves.steady hs
  exact ⟨hcount, hkept.height, hkept.memory⟩

end Machine

end FlowCheck
