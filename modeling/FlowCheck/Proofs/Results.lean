import FlowCheck.Proofs.ExactResults
import FlowCheck.Proofs.Steady

/-!
# What an instruction computes

An instruction computes a number, which has to be in the range of words, and reaches into the memory
up to some place.  `result?` and `reach?` say which number and which place, over the unbounded
integers and without a look at any limit.  On success the result is the only word on the stack that
was not there before, and the memory covers what was reached (`Leaves.made`).
-/

namespace FlowCheck.Machine

variable {host : Host} {i : Instruction} {s s' : State}

/-! ## Results -/

/-- The number that an instruction computes, if it computes one and has its operands. -/
def result? (host : Host) (i : Instruction) (s : State) : Option Int :=
  match i.opcode, s.stack.items with
  | .push _, _ => some (i.immediate.getD 0 : Nat)
  | .unary op, a :: _ => some (op.result a.toNat)
  | .binary op, a :: b :: _ => some (op.result a.toNat b.toNat)
  | .ternary op, a :: b :: n :: _ => some (op.result a.toNat b.toNat n.toNat)
  | .mload, a :: _ => some (numberOf ((s.memory.grow (a.toNat + 32)).read a.toNat 32).toList)
  | .msize, _ => some s.memory.size
  | .pc, _ => some i.pc
  | .codesize, _ => some host.program.length
  | .callvalue, _ => host.callValue.map wrapped
  | .calldatasize, _ => some host.calldata.size
  | .calldataload, a :: _ =>
      some (numberOf ((List.range 32).map (fun j => host.calldata.getD (a.toNat + j) 0)))
  | _, _ => none

/-- How far an instruction reaches into the memory, if it does and has its operands. -/
def reach? (i : Instruction) (s : State) : Option Nat :=
  match i.opcode, s.stack.items with
  | .mload, a :: _ => some (a.toNat + 32)
  | .mstore, a :: _ :: _ => some (a.toNat + 32)
  | .mstore8, a :: _ :: _ => some (a.toNat + 1)
  | .ret, a :: size :: _ => if size.toNat = 0 then none else some (a.toNat + size.toNat)
  | .revert, a :: size :: _ => if size.toNat = 0 then none else some (a.toNat + size.toNat)
  | _, _ => none

/-- Where sizes and counters are words, every result is one. -/
theorem result?_word {n : Int} (hpc : s.pc < host.program.length)
    (hi : host.program.decode s.pc = .ok i) (hcode : host.program.length < wordModulus)
    (hdata : host.calldata.size < wordModulus) (hmemory : s.memory.size < wordModulus)
    (h : result? host i s = some n) : ∃ w : Word, n = w.toNat := by
  have hsmall : ∀ m : Nat, m < wordModulus → ∃ w : Word, (m : Int) = w.toNat := fun m hm =>
    ⟨⟨m, hm⟩, rfl⟩
  unfold result? at h
  split at h
  case h_1 hop =>
    cases h
    exact hsmall _ (Program.decode_push_lt hpc hi hop)
  case h_2 =>
    cases h
    exact ⟨_, UnaryOp.result_toNat _ _⟩
  case h_3 =>
    cases h
    exact ⟨_, BinaryOp.result_toNat _ _ _⟩
  case h_4 =>
    cases h
    exact ⟨_, TernaryOp.result_toNat _ _ _ _⟩
  case h_6 =>
    cases h
    exact hsmall _ hmemory
  case h_7 =>
    cases h
    rw [Program.decode_pc hi]
    exact hsmall _ (Nat.lt_trans hpc hcode)
  case h_8 =>
    cases h
    exact hsmall _ hcode
  case h_9 =>
    obtain ⟨v, -, rfl⟩ := Option.map_eq_some_iff.1 h
    exact ⟨Word.ofInt v, (Word.toNat_ofInt v).symm⟩
  case h_10 =>
    cases h
    exact hsmall _ hdata
  case h_5 | h_11 =>
    cases h
    rw [Word.numberOf_eq]
    exact ⟨_, rfl⟩
  case h_12 => cases h

/-- What an instruction leaves when it succeeds. -/
structure Made (host : Host) (i : Instruction) (s s' : State) : Prop where
  top : ∀ n, result? host i s = some n → s'.stack.items.head? = some (Word.ofInt n)
  others : ∀ w ∈ s'.stack.items,
    w ∈ s.stack.items ∨ ∃ n, result? host i s = some n ∧ w = Word.ofInt n
  covered : ∀ n, reach? i s = some n → n ≤ s'.memory.size

theorem made_of_result {w : Word} {rest : List Word} (taken : List Word)
    (hresult : (result? host i s).map Word.ofInt = some w)
    (hbefore : s.stack.items = taken ++ rest) (hafter : s'.stack.items = w :: rest)
    (hcovered : ∀ n, reach? i s = some n → n ≤ s'.memory.size) : Made host i s s' := by
  obtain ⟨n, hn, rfl⟩ := Option.map_eq_some_iff.1 hresult
  refine ⟨?_, ?_, hcovered⟩
  · intro m hm
    rw [hn] at hm
    cases hm
    rw [hafter]
    rfl
  · intro x hx
    rw [hafter] at hx
    rcases List.mem_cons.1 hx with rfl | hx
    · exact Or.inr ⟨n, hn, rfl⟩
    · left
      rw [hbefore]
      exact List.mem_append_right taken hx

theorem made_of_none (hresult : result? host i s = none)
    (hitems : ∀ w ∈ s'.stack.items, w ∈ s.stack.items)
    (hcovered : ∀ n, reach? i s = some n → n ≤ s'.memory.size) : Made host i s s' := by
  refine ⟨?_, fun w hw => Or.inl (hitems w hw), hcovered⟩
  intro n hn
  rw [hresult] at hn
  cases hn

/-! ## One instruction -/

section

variable {post : Unit → State → Prop}

theorem ensures_popped {post : Word → State → Prop}
    (h : ∀ w s', s.stack.items = w :: s'.stack.items → s'.memory = s.memory → post w s') :
    Ensures (pop host) s post (fun _ _ => True) := by
  unfold pop
  apply Ensures.of_bind
  apply Ensures.of_get
  cases hpop : s.stack.pop? with
  | none => exact Ensures.of_throw trivial
  | some r =>
      obtain ⟨w, rest⟩ := r
      apply Ensures.of_bind
      apply Ensures.of_set
      exact Ensures.of_pure (h w _ (items_of_pop? hpop) rfl)

theorem ensures_pushed {w : Word}
    (h : ∀ s', s'.stack.items = w :: s.stack.items → s'.memory = s.memory → post () s') :
    Ensures (push host w) s post (fun _ _ => True) := by
  unfold push
  apply Ensures.of_bind
  apply Ensures.of_get
  split
  · exact Ensures.of_throw trivial
  · exact Ensures.of_set (h _ rfl rfl)

theorem ensures_touched {size : Nat}
    (h : ∀ s', s'.stack = s.stack → s'.memory = s.memory.grow size → post () s') :
    Ensures (touch host size) s post (fun _ _ => True) := by
  unfold touch
  apply Ensures.of_bind
  apply Ensures.of_get
  split
  · exact Ensures.of_throw trivial
  · exact Ensures.of_set (h _ rfl rfl)

theorem ensures_stored {offset : Nat} {bs : List UInt8}
    (h : ∀ s', s'.stack = s.stack → offset + bs.length ≤ s'.memory.size → post () s') :
    Ensures (storeBytes host offset bs) s post (fun _ _ => True) := by
  unfold storeBytes
  apply Ensures.of_bind
  apply ensures_touched
  intro s₁ hstack hmemory
  refine Ensures.of_modify (h _ hstack ?_)
  show offset + bs.length ≤ (s₁.memory.write offset bs).size
  rw [Memory.size_write, hmemory, Memory.size_grow]
  have hround := Memory.le_roundUp (offset + bs.length)
  omega

end

theorem made_compute {mode : OperandMode} (hrow : i.descriptor = mode.describe i.opcode) :
    Ensures (compute host i) s (fun _ s' => Made host i s s') (fun _ _ => True) := by
  unfold compute
  -- by opcode: the operands that are popped are those that `result?` and `reach?` look at
  cases hop : i.opcode
  case unary op =>
    refine Ensures.of_bind (ensures_popped (fun a s₁ h₁ _ => ?_))
    refine ensures_pushed (fun s' hafter _ => made_of_result [a] ?_ h₁ hafter ?_)
    · simp [result?, hop, h₁, UnaryOp.result_toNat, Word.ofInt_toNat]
    · simp [reach?, hop]
  case binary op =>
    refine Ensures.of_bind (ensures_popped (fun a s₁ h₁ _ => ?_))
    refine Ensures.of_bind (ensures_popped (fun b s₂ h₂ _ => ?_))
    rw [h₂] at h₁
    refine ensures_pushed (fun s' hafter _ => made_of_result [a, b] ?_ h₁ hafter ?_)
    · simp [result?, hop, h₁, BinaryOp.result_toNat, Word.ofInt_toNat]
    · simp [reach?, hop]
  case ternary op =>
    refine Ensures.of_bind (ensures_popped (fun a s₁ h₁ _ => ?_))
    refine Ensures.of_bind (ensures_popped (fun b s₂ h₂ _ => ?_))
    refine Ensures.of_bind (ensures_popped (fun n s₃ h₃ _ => ?_))
    rw [h₂, h₃] at h₁
    refine ensures_pushed (fun s' hafter _ => made_of_result [a, b, n] ?_ h₁ hafter ?_)
    · simp [result?, hop, h₁, TernaryOp.result_toNat, Word.ofInt_toNat]
    · simp [reach?, hop]
  case push | pc | codesize | calldatasize =>
    refine ensures_pushed (fun s' hafter _ => made_of_result [] ?_ rfl hafter ?_)
    · simp [result?, hop, Word.ofInt_natCast]
    · simp [reach?, hop]
  case msize =>
    refine Ensures.of_bind (Ensures.of_get ?_)
    refine ensures_pushed (fun s' hafter _ => made_of_result [] ?_ rfl hafter ?_)
    · simp [result?, hop, Word.ofInt_natCast]
    · simp [reach?, hop]
  case callvalue =>
    cases hvalue : host.callValue with
    | none => exact Ensures.of_throw trivial
    | some v =>
        refine ensures_pushed (fun s' hafter _ => made_of_result [] ?_ rfl hafter ?_)
        · simp [result?, hop, hvalue, ← Word.toNat_ofInt, Word.ofInt_toNat]
        · simp [reach?, hop]
  case calldataload =>
    refine Ensures.of_bind (ensures_popped (fun a s₁ h₁ _ => ?_))
    refine ensures_pushed (fun s' hafter _ => made_of_result [a] ?_ h₁ hafter ?_)
    · simp [result?, hop, h₁, Word.numberOf_eq, Word.ofInt_toNat, inputWord]
    · simp [reach?, hop]
  case mload =>
    refine Ensures.of_bind (ensures_popped (fun a s₁ h₁ hmemory₁ => ?_))
    refine Ensures.of_bind (Ensures.of_bind ?_)
    rw [readMemory, if_neg (by decide)]
    refine Ensures.of_bind (ensures_touched (fun s₂ hstack hmemory₂ => ?_))
    refine Ensures.of_bind (Ensures.of_get (Ensures.of_pure (Ensures.of_pure ?_)))
    rw [hmemory₁] at hmemory₂
    refine ensures_pushed (fun s' hafter hmemory => ?_)
    rw [hstack] at hafter
    refine made_of_result [a] ?_ h₁ hafter ?_
    · simp [result?, hop, h₁, Word.numberOf_eq, Word.ofInt_toNat, hmemory₂]
    · intro n hn
      obtain rfl : a.toNat + 32 = n := by simpa [reach?, hop, h₁] using hn
      have hround := Memory.le_roundUp (a.toNat + 32)
      rw [hmemory, hmemory₂, Memory.size_grow]
      omega
  case mstore | mstore8 =>
    refine Ensures.of_bind (ensures_popped (fun a s₁ h₁ _ => ?_))
    refine Ensures.of_bind (ensures_popped (fun b s₂ h₂ _ => ?_))
    rw [h₂] at h₁
    refine ensures_stored (fun s' hstack hcovered => made_of_none ?_ ?_ ?_)
    · simp [result?, hop]
    · intro w hw
      rw [hstack] at hw
      rw [h₁]
      exact List.mem_cons_of_mem _ (List.mem_cons_of_mem _ hw)
    · simpa [reach?, hop, h₁, Word.toBytes, Bytes.BigEndian.length_encode] using hcovered
  case dup n =>
    have hinputs : i.descriptor.inputs = n.val + 1 := by rw [hrow, hop]; rfl
    have houtputs : i.descriptor.outputs = n.val + 2 := by rw [hrow, hop]; rfl
    refine (ensures_dup hinputs houtputs (fun w s' hw hafter _ => ?_)).mono (fun _ _ h => h)
      (fun _ _ _ => trivial)
    refine made_of_none ?_ ?_ ?_
    · simp [result?, hop]
    · intro x hx
      rw [hafter] at hx
      rcases List.mem_cons.1 hx with rfl | hx
      · exact List.mem_of_getElem? hw
      · exact hx
    · simp [reach?, hop]
  case swap n =>
    have hinputs : i.descriptor.inputs = n.val + 2 := by rw [hrow, hop]; rfl
    refine (ensures_swap hinputs (fun a b s' ha hb hafter _ => ?_)).mono (fun _ _ h => h)
      (fun _ _ _ => trivial)
    refine made_of_none ?_ ?_ ?_
    · simp [result?, hop]
    · intro x hx
      rw [hafter] at hx
      rcases List.mem_or_eq_of_mem_set hx with hx | rfl
      · rcases List.mem_or_eq_of_mem_set hx with hx | rfl
        · exact hx
        · exact List.mem_of_getElem? hb
      · exact List.mem_of_getElem? ha
    · simp [reach?, hop]
  case pop =>
    refine Ensures.of_bind (ensures_popped (fun a s₁ h₁ _ => ?_))
    refine Ensures.of_pure (made_of_none ?_ ?_ ?_)
    · simp [result?, hop]
    · intro x hx
      rw [h₁]
      exact List.mem_cons_of_mem _ hx
    · simp [reach?, hop]
  case jumpdest =>
    refine Ensures.of_pure (made_of_none ?_ (fun w hw => hw) ?_)
    · simp [result?, hop]
    · simp [reach?, hop]
  all_goals exact Ensures.of_throw trivial

theorem made_haltWith {reason : HaltReason} (hop : i.opcode = .ret ∨ i.opcode = .revert) :
    Ensures (haltWith host reason) s (fun _ s' => Made host i s s') (fun _ _ => True) := by
  have hresult : result? host i s = none := by
    rcases hop with hop | hop <;> simp [result?, hop]
  unfold haltWith
  refine Ensures.of_bind (ensures_popped (fun a s₁ h₁ _ => ?_))
  refine Ensures.of_bind (ensures_popped (fun size s₂ h₂ _ => ?_))
  rw [h₂] at h₁
  have hreach : reach? i s = if size.toNat = 0 then none else some (a.toNat + size.toNat) := by
    rcases hop with hop | hop <;> simp [reach?, hop, h₁]
  have hkept : ∀ w ∈ s₂.stack.items, w ∈ s.stack.items := by
    intro w hw
    rw [h₁]
    exact List.mem_cons_of_mem _ (List.mem_cons_of_mem _ hw)
  apply Ensures.of_bind
  unfold readMemory
  split
  · rename_i hzero
    refine Ensures.of_pure (Ensures.of_pure (made_of_none hresult hkept ?_))
    simp [hreach, hzero]
  · rename_i hsize
    refine Ensures.of_bind (ensures_touched (fun s₃ hstack hmemory => ?_))
    refine Ensures.of_bind (Ensures.of_get (Ensures.of_pure (Ensures.of_pure ?_)))
    refine made_of_none hresult (by rw [hstack]; exact hkept) ?_
    intro n hn
    obtain rfl : a.toNat + size.toNat = n := by simpa [hreach, hsize] using hn
    have hround := Memory.le_roundUp (a.toNat + size.toNat)
    rw [hmemory, Memory.size_grow]
    omega

/-- Instructions that move control or halt leave part of the stack they find. -/
theorem Effect.kept {next : Next} (h : Effect host i s next s')
    (hplain : i.descriptor.kind ≠ .plain) (hpush : i.descriptor.kind ≠ .push) :
    ∀ w ∈ s'.stack.items, w ∈ s.stack.items := by
  have htaken : Takes i s s' → ∀ w ∈ s'.stack.items, w ∈ s.stack.items := by
    intro htakes w hw
    rw [htakes.2] at hw
    exact List.mem_of_mem_drop hw
  cases h with
  | computed hkind _ _ => exact absurd hkind (by simp [hplain, hpush])
  | began _ hitems _ | returned _ _ hitems =>
      rw [hitems]
      exact fun w hw => hw
  | jumped _ _ _ _ htakes _ | fell _ htakes _ | called _ _ _ htakes _ _ | halted _ htakes _ =>
      exact htaken htakes

theorem made_step {pc : Nat} (hpc : pc < host.program.length)
    (hi : host.program.decode pc = .ok i) :
    Ensures (step host i) s (fun _ s' => Made host i s s') (fun _ _ => True) := by
  have hrow := Program.decode_descriptor hpc hi
  cases hop : i.opcode
  case stop | jump | jumpi | jumpsub | beginsub | returnsub =>
    have hkind : i.descriptor.kind ≠ .plain ∧ i.descriptor.kind ≠ .push := by
      rw [hrow, hop]
      cases host.program.mode <;> simp [OperandMode.describe]
    refine (ensures_step hpc hi).mono (fun next s' h => ?_) (fun _ _ _ => trivial)
    refine made_of_none ?_ (h.kept hkind.1 hkind.2) ?_
    · simp [result?, hop]
    · simp [reach?, hop]
  case ret | revert =>
    simp only [step, control?, hrow, hop, OperandMode.describe]
    exact made_haltWith (by simp [hop])
  all_goals
    simp only [step, control?, hrow, hop, OperandMode.describe]
    refine Ensures.of_bind ((made_compute hrow).mono ?_ (fun _ _ h => h))
    exact fun _ _ h => Ensures.of_pure h

/-- An instruction that succeeds had its operands, and leaves its result. -/
theorem Leaves.made {next : Next} (h : Leaves host s (.ok next) s')
    (hi : host.program.decode s.pc = .ok i) :
    i.descriptor.inputs ≤ s.stack.items.length ∧ Made host i s s' := by
  obtain ⟨j, hpc, hj, hrun⟩ := h
  obtain rfl : i = j := by
    rw [hi] at hj
    cases hj
    rfl
  have heffect := (ensures_step hpc hi).of_ok hrun
  have hmade := (made_step hpc hi).of_ok hrun
  -- neither result nor reach depends on the steps that have been counted
  exact ⟨(heffect.items (Program.decode_descriptor hpc hi)).1,
    hmade.top, hmade.others, hmade.covered⟩

end FlowCheck.Machine
