import FlowCheck.Machine.Run
import FlowCheck.Proofs.Boundaries
import FlowCheck.Proofs.Ensures

/-!
# What one instruction does

`Effect` lists everything that an instruction can do to the stacks when it succeeds, and `Fails`
everything that can be wrong with it when it does not.  The two together are exhaustive
(`ensures_step`), for every state and every limit, and all that is said later about runs is derived
from them.
-/

namespace FlowCheck.Machine

variable {host : Host} {i : Instruction} {s : State} {α : Type}

/-! ## Effects -/

/-- What an instruction that continues behind itself leaves of the items on the data stack. -/
def Computes (i : Instruction) (items items' : List Word) : Prop :=
  match i.opcode with
  | .push _ => items' = Word.ofNat (i.immediate.getD 0) :: items
  | .dup n => ∃ w, items[n.val]? = some w ∧ items' = w :: items
  | .swap n => ∃ a b, items[0]? = some a ∧ items[n.val + 1]? = some b ∧
      items' = (items.set 0 b).set (n.val + 1) a
  | _ => i.descriptor.inputs ≤ items.length ∧
      ∃ new, new.length = i.descriptor.outputs ∧ items' = new ++ items.drop i.descriptor.inputs

/-- The operands of an instruction are taken from the data stack and nothing is left for them. -/
def Takes (i : Instruction) (s s' : State) : Prop :=
  i.descriptor.inputs ≤ s.stack.items.length ∧
    s'.stack.items = s.stack.items.drop i.descriptor.inputs

/-- A transfer that the table does not forbid. -/
def Declared (host : Host) (i : Instruction) (dest : Nat) : Prop :=
  host.table.hasSource i.pc = true → host.table.hasEdge i.pc dest = true

/-- Where a call goes: to its immediate, or to the top of the data stack. -/
def Targets (host : Host) (i : Instruction) (s : State) (target : Nat) : Prop :=
  i.immediate = some target ∨
    (i.immediate = none ∧ ∃ w, s.stack.items.head? = some w ∧ w.toNat = target ∧
      Declared host i target)

/-- The instruction takes a target from the data stack. -/
def TakesTarget (i : Instruction) : Prop :=
  i.immediate = none ∧ (i.descriptor.kind = .jump ∨ i.descriptor.kind = .jumpi ∨
    i.descriptor.kind = .jumpsub)

/-- What an instruction does when it succeeds. -/
inductive Effect (host : Host) (i : Instruction) (s : State) : Next → State → Prop
  | computed {s' : State} (hkind : i.descriptor.kind = .plain ∨ i.descriptor.kind = .push)
      (hitems : Computes i s.stack.items s'.stack.items) (hcalls : s'.calls = s.calls) :
      Effect host i s (.goto i.next) s'
  | began {s' : State} (hkind : i.descriptor.kind = .beginsub)
      (hitems : s'.stack.items = s.stack.items) (hcalls : s'.calls = s.calls) :
      Effect host i s (.goto i.next) s'
  | jumped {s' : State} {dest : Word}
      (hkind : i.descriptor.kind = .jump ∨ i.descriptor.kind = .jumpi)
      (htop : s.stack.items.head? = some dest) (hdeclared : Declared host i dest.toNat)
      (hmarker : host.program.isJumpdest dest.toNat = true) (htakes : Takes i s s')
      (hcalls : s'.calls = s.calls) : Effect host i s (.goto dest.toNat) s'
  | fell {s' : State} (hkind : i.descriptor.kind = .jumpi) (htakes : Takes i s s')
      (hcalls : s'.calls = s.calls) : Effect host i s (.goto i.next) s'
  | called {s' : State} {target : Nat} (hkind : i.descriptor.kind = .jumpsub)
      (htarget : Targets host i s target) (hentry : host.program.isEntry target = true)
      (htakes : Takes i s s') (hcalls : s'.calls = s.calls.push i.next)
      (hroom : (s.calls.stack.height : Int) < host.returnLimit.ceil) :
      Effect host i s (.goto target) s'
  | returned {s' : State} {target : Nat} (hkind : i.descriptor.kind = .returnsub)
      (hpop : s.calls.pop? = some (target, s'.calls)) (hitems : s'.stack.items = s.stack.items) :
      Effect host i s (.goto target) s'
  | halted {s' : State} {reason : HaltReason} {data : Array UInt8}
      (hkind : i.descriptor.kind = .terminal) (htakes : Takes i s s')
      (hcalls : s'.calls = s.calls) : Effect host i s (.halt reason data) s'

/-- What can be wrong with an instruction. -/
inductive Failing (host : Host) (i : Instruction) (s : State) : Fault → Prop
  | short {f : Fault} (hkind : f.cause.kind = .stackUnderflow)
      (hshort : s.stack.items.length < i.descriptor.inputs) : Failing host i s f
  | full {f : Fault} (hkind : f.cause.kind = .stackOverflow)
      (hfull : host.stackLimit.ceil < s.stack.items.length + i.descriptor.delta) :
      Failing host i s f
  | memory {f : Fault} (hkind : f.cause.kind = .memoryLimitExceeded) : Failing host i s f
  | unsupported {f : Fault} (hkind : f.cause.kind = .unsupportedInstruction) : Failing host i s f
  | undeclared {dest : Word} (hsite : TakesTarget i)
      (htop : s.stack.items.head? = some dest) (hsource : host.table.hasSource i.pc = true)
      (hedge : host.table.hasEdge i.pc dest.toNat = false) :
      Failing host i s (faultAt i (.undeclaredEdge i.pc dest.toNat))
  | notJumpdest {dest : Word} (hkind : i.descriptor.kind = .jump ∨ i.descriptor.kind = .jumpi)
      (htop : s.stack.items.head? = some dest) (hdeclared : Declared host i dest.toNat)
      (hmarker : host.program.isJumpdest dest.toNat = false) :
      Failing host i s (faultAt i (.notJumpdest dest.toNat))
  | notEntry {target : Nat} (hkind : i.descriptor.kind = .jumpsub)
      (htarget : Targets host i s target) (hentry : host.program.isEntry target = false) :
      Failing host i s (faultAt i (.notEntry target))
  | returnsFull {target : Nat} (hkind : i.descriptor.kind = .jumpsub)
      (htarget : Targets host i s target)
      (hfull : host.returnLimit.ceil ≤ s.calls.stack.height) :
      Failing host i s (faultAt i (.returnStackFull host.returnLimit))
  | returnsEmpty (hkind : i.descriptor.kind = .returnsub) (hempty : s.calls.stack.items = []) :
      Failing host i s (faultAt i .returnStackEmpty)

/-- An instruction that fails has taken some of its operands and changed no resumption point. -/
structure Fails (host : Host) (i : Instruction) (s : State) (f : Fault) (s' : State) : Prop where
  cause : Failing host i s f
  items : ∃ n ≤ i.descriptor.inputs, s'.stack.items = s.stack.items.drop n
  calls : s'.calls = s.calls

/-! ## Elementary actions -/

theorem items_of_pop? {β : Type} {t rest : Stack β} {a : β} (h : t.pop? = some (a, rest)) :
    t.items = a :: rest.items := by
  unfold Stack.pop? at h
  split at h
  · cases h
  · rename_i b l hitems
    cases h
    exact hitems

theorem items_of_pop?_eq_none {β : Type} {t : Stack β} (h : t.pop? = none) : t.items = [] := by
  unfold Stack.pop? at h
  split at h
  · assumption
  · cases h

theorem calls_of_pop? {t rest : ReturnStack Nat} {pc : Nat} (h : t.pop? = some (pc, rest)) :
    t.stack.items = pc :: rest.stack.items := by
  unfold ReturnStack.pop? at h
  obtain ⟨⟨a, r⟩, hpop, hr⟩ := Option.map_eq_some_iff.1 h
  cases hr
  exact items_of_pop? hpop

/-- Part of the operands of an instruction are taken, and the memory may have grown. -/
structure Taken (s : State) (taken : List Word) (s' : State) : Prop where
  items : s.stack.items = taken ++ s'.stack.items
  calls : s'.calls = s.calls

theorem Taken.nothing (s : State) : Taken s [] s :=
  ⟨rfl, rfl⟩

theorem Taken.length {s s' : State} {taken : List Word} (h : Taken s taken s') :
    s.stack.items.length = taken.length + s'.stack.items.length := by
  rw [h.items, List.length_append]

theorem Taken.drop {s s' : State} {taken : List Word} (h : Taken s taken s') :
    s'.stack.items = s.stack.items.drop taken.length := by
  rw [h.items, List.drop_left]

theorem Taken.fails {s s' : State} {taken : List Word} {f : Fault} (h : Taken s taken s')
    (hlength : taken.length ≤ i.descriptor.inputs) (hcause : Failing host i s f) :
    Fails host i s f s' :=
  ⟨hcause, ⟨taken.length, hlength, h.drop⟩, h.calls⟩

section

variable {s' : State} {taken : List Word}

/-- The next operand. -/
theorem ensures_operand {post : Word → State → Prop} (h : Taken s taken s')
    (hmore : taken.length < i.descriptor.inputs)
    (hok : ∀ w s'', Taken s (taken ++ [w]) s'' → post w s'') :
    Ensures (pop host) s' post (Fails host i s) := by
  unfold pop
  refine Ensures.of_bind (Ensures.of_get ?_)
  cases hpop : s'.stack.pop? with
  | none =>
      have hempty := items_of_pop?_eq_none hpop
      refine Ensures.of_throw (h.fails (Nat.le_of_lt hmore) (.short rfl ?_))
      rw [h.length, hempty]
      simpa using hmore
  | some r =>
      obtain ⟨w, rest⟩ := r
      refine Ensures.of_bind (Ensures.of_set (Ensures.of_pure (hok w _ ⟨?_, h.calls⟩)))
      rw [h.items, items_of_pop? hpop]
      simp

/-- A result in the place of all operands. -/
theorem ensures_result {post : Unit → State → Prop} {w : Word} (h : Taken s taken s')
    (hall : taken.length = i.descriptor.inputs) (hone : i.descriptor.outputs = 1)
    (hok : ∀ s'' : State, s''.stack.items = w :: s.stack.items.drop i.descriptor.inputs →
      s''.calls = s.calls → post () s'') :
    Ensures (push host w) s' post (Fails host i s) := by
  unfold push
  refine Ensures.of_bind (Ensures.of_get ?_)
  split
  · rename_i hfull
    refine Ensures.of_throw (h.fails (Nat.le_of_eq hall) (.full rfl ?_))
    have hlength := h.length
    rw [s'.stack.height_eq] at hfull
    rw [Descriptor.delta, hone]
    omega
  · refine Ensures.of_set (hok _ ?_ h.calls)
    rw [Stack.items_push, h.drop, hall]

theorem ensures_touch {size : Nat} {post : Unit → State → Prop} (h : Taken s taken s')
    (hall : taken.length ≤ i.descriptor.inputs)
    (hok : ∀ s'', Taken s taken s'' → post () s'') :
    Ensures (touch host size) s' post (Fails host i s) := by
  unfold touch
  refine Ensures.of_bind (Ensures.of_get ?_)
  split
  · exact Ensures.of_throw (h.fails hall (.memory rfl))
  · exact Ensures.of_set (hok _ ⟨h.items, h.calls⟩)

theorem ensures_readMemory {offset size : Nat} {post : Array UInt8 → State → Prop}
    (h : Taken s taken s') (hall : taken.length ≤ i.descriptor.inputs)
    (hok : ∀ bs s'', Taken s taken s'' → post bs s'') :
    Ensures (readMemory host offset size) s' post (Fails host i s) := by
  unfold readMemory
  split
  · exact Ensures.of_pure (hok _ _ h)
  · refine Ensures.of_bind (ensures_touch h hall (fun s'' h'' => ?_))
    exact Ensures.of_bind (Ensures.of_get (Ensures.of_pure (hok _ _ h'')))

theorem ensures_storeBytes {offset : Nat} {bs : List UInt8} {post : Unit → State → Prop}
    (h : Taken s taken s') (hall : taken.length ≤ i.descriptor.inputs)
    (hok : ∀ s'', Taken s taken s'' → post () s'') :
    Ensures (storeBytes host offset bs) s' post (Fails host i s) := by
  unfold storeBytes
  refine Ensures.of_bind (ensures_touch h hall (fun s'' h'' => ?_))
  exact Ensures.of_modify (hok _ ⟨h''.items, h''.calls⟩)

end

theorem ensures_unsupported {cause : FaultCause} {post : α → State → Prop}
    (hkind : cause.kind = .unsupportedInstruction) :
    Ensures (throw (faultAt i cause) : Action α) s post (Fails host i s) :=
  Ensures.of_throw ((Taken.nothing s).fails (Nat.zero_le _) (.unsupported hkind))

/-! ## Computing instructions -/

theorem ensures_dup {n : Nat} {post : Unit → State → Prop}
    (hinputs : i.descriptor.inputs = n + 1) (houtputs : i.descriptor.outputs = n + 2)
    (hok : ∀ w (s' : State), s.stack.items[n]? = some w → s'.stack.items = w :: s.stack.items →
      s'.calls = s.calls → post () s') :
    Ensures (dup host n) s post (Fails host i s) := by
  unfold dup peek
  refine Ensures.of_bind (Ensures.of_bind (Ensures.of_get ?_))
  cases hpeek : s.stack.peek? n with
  | none =>
      refine Ensures.of_throw ((Taken.nothing s).fails (Nat.zero_le _) (.short rfl ?_))
      have hlength := List.getElem?_eq_none_iff.1 hpeek
      omega
  | some w =>
      refine Ensures.of_pure ?_
      unfold push
      refine Ensures.of_bind (Ensures.of_get ?_)
      split
      · rename_i hfull
        refine Ensures.of_throw ((Taken.nothing s).fails (Nat.zero_le _) (.full rfl ?_))
        rw [s.stack.height_eq] at hfull
        rw [Descriptor.delta, hinputs, houtputs]
        omega
      · exact Ensures.of_set (hok w _ hpeek rfl rfl)

theorem ensures_swap {n : Nat} {post : Unit → State → Prop}
    (hinputs : i.descriptor.inputs = n + 2)
    (hok : ∀ a b (s' : State), s.stack.items[0]? = some a → s.stack.items[n + 1]? = some b →
      s'.stack.items = (s.stack.items.set 0 b).set (n + 1) a → s'.calls = s.calls → post () s') :
    Ensures (swap host (n + 1)) s post (Fails host i s) := by
  unfold swap peek
  refine Ensures.of_bind (Ensures.of_bind (Ensures.of_get ?_))
  cases hpeek : s.stack.peek? (n + 1) with
  | none =>
      refine Ensures.of_throw ((Taken.nothing s).fails (Nat.zero_le _) (.short rfl ?_))
      have hlength := List.getElem?_eq_none_iff.1 hpeek
      omega
  | some b =>
      have hb : s.stack.items[n + 1]? = some b := hpeek
      obtain ⟨a, ha⟩ : ∃ a, s.stack.items[0]? = some a := by
        have hlength := (List.getElem?_eq_some_iff.1 hb).1
        exact ⟨_, List.getElem?_eq_getElem (by omega)⟩
      refine Ensures.of_pure (Ensures.of_modify (hok a b _ ha hb ?_ rfl))
      simp only [Stack.swap, ha, hb]

/-- What an instruction that continues behind itself does to the stacks. -/
def Computed (i : Instruction) (s s' : State) : Prop :=
  Computes i s.stack.items s'.stack.items ∧ s'.calls = s.calls ∧
    (i.descriptor.kind = .plain ∨ i.descriptor.kind = .push)

/-- An instruction that puts results in the place of its operands and moves nothing else. -/
def Replaces (i : Instruction) : Prop :=
  i.descriptor.kind = .plain ∧ ∀ items items' new : List Word, i.descriptor.inputs ≤ items.length →
    new.length = i.descriptor.outputs → items' = new ++ items.drop i.descriptor.inputs →
      Computes i items items'

theorem ensures_value {s' : State} {taken : List Word} {w : Word} (hi : Replaces i)
    (h : Taken s taken s') (hall : taken.length = i.descriptor.inputs)
    (hone : i.descriptor.outputs = 1) :
    Ensures (push host w) s' (fun _ s'' => Computed i s s'') (Fails host i s) := by
  refine ensures_result h hall hone (fun s'' hitems hcalls => ⟨?_, hcalls, Or.inl hi.1⟩)
  refine hi.2 _ _ [w] ?_ (by simp [hone]) hitems
  rw [← hall, h.length]
  exact Nat.le_add_right _ _

theorem Taken.computed {s' : State} {taken : List Word} (h : Taken s taken s') (hi : Replaces i)
    (hall : taken.length = i.descriptor.inputs) (hnone : i.descriptor.outputs = 0) :
    Computed i s s' := by
  refine ⟨hi.2 _ _ [] ?_ (by simp [hnone]) ?_, h.calls, Or.inl hi.1⟩
  · rw [← hall, h.length]
    exact Nat.le_add_right _ _
  · rw [List.nil_append, ← hall]
    exact h.drop

/-- A plain row other than those of copies and exchanges, whose instructions move words that they
do not take. -/
theorem replaces_of_row {mode : OperandMode} {op : Opcode} {inputs outputs : Nat}
    (hdescriptor : i.descriptor = mode.describe i.opcode) (hop : i.opcode = op)
    (hrow : mode.describe op = ⟨op, 0, inputs, outputs, .plain⟩) (hdup : ∀ n, op ≠ .dup n)
    (hswap : ∀ n, op ≠ .swap n) :
    i.descriptor.inputs = inputs ∧ i.descriptor.outputs = outputs ∧ Replaces i := by
  rw [hop, hrow] at hdescriptor
  refine ⟨by rw [hdescriptor], by rw [hdescriptor], by rw [hdescriptor], ?_⟩
  intro items items' new hinputs hnew hitems
  unfold Computes
  split
  · rename_i n hpush
    rw [← hop, hpush] at hrow
    cases hrow
  · rename_i n hcopy
    exact absurd (hop.symm.trans hcopy) (hdup n)
  · rename_i n hexchange
    exact absurd (hop.symm.trans hexchange) (hswap n)
  · exact ⟨hinputs, new, hnew, hitems⟩

/-- An instruction that continues behind itself computes or fails. -/
theorem ensures_compute {mode : OperandMode} (hdescriptor : i.descriptor = mode.describe i.opcode) :
    Ensures (compute host i) s (fun _ s' => Computed i s s') (Fails host i s) := by
  have hstart := Taken.nothing s
  unfold compute
  -- by opcode: operands are taken one by one, then a result is left in their place or none is
  cases hop : i.opcode
  case push n =>
    refine ensures_result hstart (by simp [hdescriptor, hop, OperandMode.describe])
      (by simp [hdescriptor, hop, OperandMode.describe]) (fun s' hitems hcalls => ⟨?_, hcalls, ?_⟩)
    · simpa [Computes, hdescriptor, hop, OperandMode.describe] using hitems
    · simp [hdescriptor, hop, OperandMode.describe]
  case dup n =>
    refine ensures_dup (by simp [hdescriptor, hop, OperandMode.describe])
      (by simp [hdescriptor, hop, OperandMode.describe])
      (fun w s' hw hitems hcalls => ⟨?_, hcalls, ?_⟩)
    · simp only [Computes, hop]
      exact ⟨w, hw, hitems⟩
    · simp [hdescriptor, hop, OperandMode.describe]
  case swap n =>
    refine ensures_swap (by simp [hdescriptor, hop, OperandMode.describe])
      (fun a b s' ha hb hitems hcalls => ⟨?_, hcalls, ?_⟩)
    · simp only [Computes, hop]
      exact ⟨a, b, ha, hb, hitems⟩
    · simp [hdescriptor, hop, OperandMode.describe]
  case unary op =>
    obtain ⟨hin, hout, hi⟩ := replaces_of_row hdescriptor hop rfl nofun nofun
    refine Ensures.of_bind (ensures_operand hstart (by simp [hin]) (fun a s₁ h₁ => ?_))
    exact ensures_value hi h₁ (by simp [hin]) hout
  case binary op =>
    obtain ⟨hin, hout, hi⟩ := replaces_of_row hdescriptor hop rfl nofun nofun
    refine Ensures.of_bind (ensures_operand hstart (by simp [hin]) (fun a s₁ h₁ => ?_))
    refine Ensures.of_bind (ensures_operand h₁ (by simp [hin]) (fun b s₂ h₂ => ?_))
    exact ensures_value hi h₂ (by simp [hin]) hout
  case ternary op =>
    obtain ⟨hin, hout, hi⟩ := replaces_of_row hdescriptor hop rfl nofun nofun
    refine Ensures.of_bind (ensures_operand hstart (by simp [hin]) (fun a s₁ h₁ => ?_))
    refine Ensures.of_bind (ensures_operand h₁ (by simp [hin]) (fun b s₂ h₂ => ?_))
    refine Ensures.of_bind (ensures_operand h₂ (by simp [hin]) (fun n s₃ h₃ => ?_))
    exact ensures_value hi h₃ (by simp [hin]) hout
  case calldataload =>
    obtain ⟨hin, hout, hi⟩ := replaces_of_row hdescriptor hop rfl nofun nofun
    refine Ensures.of_bind (ensures_operand hstart (by simp [hin]) (fun a s₁ h₁ => ?_))
    exact ensures_value hi h₁ (by simp [hin]) hout
  case mload =>
    obtain ⟨hin, hout, hi⟩ := replaces_of_row hdescriptor hop rfl nofun nofun
    refine Ensures.of_bind (ensures_operand hstart (by simp [hin]) (fun a s₁ h₁ => ?_))
    refine Ensures.of_bind (Ensures.of_bind
      (ensures_readMemory h₁ (by simp [hin]) (fun bs s₂ h₂ => ?_)))
    exact Ensures.of_pure (ensures_value hi h₂ (by simp [hin]) hout)
  case mstore | mstore8 =>
    obtain ⟨hin, hout, hi⟩ := replaces_of_row hdescriptor hop rfl nofun nofun
    refine Ensures.of_bind (ensures_operand hstart (by simp [hin]) (fun a s₁ h₁ => ?_))
    refine Ensures.of_bind (ensures_operand h₁ (by simp [hin]) (fun b s₂ h₂ => ?_))
    exact ensures_storeBytes h₂ (by simp [hin]) (fun s₃ h₃ => h₃.computed hi (by simp [hin]) hout)
  case pop =>
    obtain ⟨hin, hout, hi⟩ := replaces_of_row hdescriptor hop rfl nofun nofun
    refine Ensures.of_bind (ensures_operand hstart (by simp [hin]) (fun a s₁ h₁ => ?_))
    exact Ensures.of_pure (h₁.computed hi (by simp [hin]) hout)
  case jumpdest =>
    obtain ⟨hin, hout, hi⟩ := replaces_of_row hdescriptor hop rfl nofun nofun
    exact Ensures.of_pure (hstart.computed hi (by simp [hin]) hout)
  case callvalue =>
    obtain ⟨hin, hout, hi⟩ := replaces_of_row hdescriptor hop rfl nofun nofun
    cases host.callValue with
    | some n => exact ensures_value hi hstart (by simp [hin]) hout
    | none => exact ensures_unsupported rfl
  case msize =>
    obtain ⟨hin, hout, hi⟩ := replaces_of_row hdescriptor hop rfl nofun nofun
    exact Ensures.of_bind (Ensures.of_get (ensures_value hi hstart (by simp [hin]) hout))
  case calldatasize | codesize | pc =>
    obtain ⟨hin, hout, hi⟩ := replaces_of_row hdescriptor hop rfl nofun nofun
    exact ensures_value hi hstart (by simp [hin]) hout
  all_goals exact ensures_unsupported rfl

/-! ## Control flow -/

theorem Taken.head? {s' : State} {taken : List Word} {w : Word} (h : Taken s (w :: taken) s') :
    s.stack.items.head? = some w := by
  rw [h.items]
  rfl

theorem Taken.takes {s' : State} {taken : List Word} (h : Taken s taken s')
    (hall : taken.length = i.descriptor.inputs) : Takes i s s' := by
  refine ⟨?_, ?_⟩
  · rw [← hall, h.length]
    exact Nat.le_add_right _ _
  · rw [← hall]
    exact h.drop

theorem ensures_checkEdge {s' : State} {taken : List Word} {dest : Word}
    {post : Unit → State → Prop} (h : Taken s (dest :: taken) s')
    (hall : (dest :: taken).length ≤ i.descriptor.inputs)
    (hsite : TakesTarget i) (hok : Declared host i dest.toNat → post () s') :
    Ensures (checkEdge host i dest.toNat) s' post (Fails host i s) := by
  unfold checkEdge
  split
  · rename_i hforbidden
    simp only [Bool.and_eq_true, Bool.not_eq_true'] at hforbidden
    exact Ensures.of_throw
      (h.fails hall (.undeclared hsite h.head? hforbidden.1 hforbidden.2))
  · rename_i hallowed
    refine Ensures.of_pure (hok (fun hsource => ?_))
    simpa [hsource] using hallowed

theorem ensures_checkJump {s' : State} {taken : List Word} {dest : Word}
    {post : Unit → State → Prop} (h : Taken s (dest :: taken) s')
    (hall : (dest :: taken).length ≤ i.descriptor.inputs)
    (himmediate : i.immediate = none)
    (hkind : i.descriptor.kind = .jump ∨ i.descriptor.kind = .jumpi)
    (hok : Declared host i dest.toNat → host.program.isJumpdest dest.toNat = true → post () s') :
    Ensures (checkJump host i dest.toNat) s' post (Fails host i s) := by
  have hsite : TakesTarget i := ⟨himmediate, by rcases hkind with hkind | hkind <;> simp [hkind]⟩
  unfold checkJump
  refine Ensures.of_bind (ensures_checkEdge h hall hsite (fun hdeclared => ?_))
  split
  · rename_i hmissed
    exact Ensures.of_throw
      (h.fails hall (.notJumpdest hkind h.head? hdeclared (by simpa using hmissed)))
  · rename_i hlands
    exact Ensures.of_pure (hok hdeclared (by simpa using hlands))

theorem ensures_jump (himmediate : i.immediate = none) (hkind : i.descriptor.kind = .jump)
    (hinputs : i.descriptor.inputs = 1) :
    Ensures (jump host i) s (fun pc s' => Effect host i s (.goto pc) s') (Fails host i s) := by
  unfold jump
  refine Ensures.of_bind (ensures_operand (Taken.nothing s) (by simp [hinputs])
    (fun dest s' h => ?_))
  refine Ensures.of_bind (ensures_checkJump h (by simp [hinputs]) himmediate (Or.inl hkind)
    (fun hdeclared hmarker => ?_))
  exact Ensures.of_pure
    (.jumped (Or.inl hkind) h.head? hdeclared hmarker (h.takes (by simp [hinputs])) h.calls)

theorem ensures_jumpIf (himmediate : i.immediate = none) (hkind : i.descriptor.kind = .jumpi)
    (hinputs : i.descriptor.inputs = 2) :
    Ensures (jumpIf host i) s (fun pc s' => Effect host i s (.goto pc) s') (Fails host i s) := by
  unfold jumpIf
  refine Ensures.of_bind (ensures_operand (Taken.nothing s) (by simp [hinputs])
    (fun dest s₁ h₁ => ?_))
  refine Ensures.of_bind (ensures_operand h₁ (by simp [hinputs]) (fun condition s₂ h₂ => ?_))
  split
  · exact Ensures.of_pure (.fell hkind (h₂.takes (by simp [hinputs])) h₂.calls)
  · refine Ensures.of_bind (ensures_checkJump h₂ (by simp [hinputs]) himmediate (Or.inr hkind)
      (fun hdeclared hmarker => ?_))
    exact Ensures.of_pure
      (.jumped (Or.inr hkind) h₂.head? hdeclared hmarker (h₂.takes (by simp [hinputs])) h₂.calls)

theorem ensures_callTarget {post : Nat → State → Prop} (hkind : i.descriptor.kind = .jumpsub)
    (hinputs : i.descriptor.inputs = if i.immediate = none then 1 else 0)
    (hok : ∀ target taken s', Taken s taken s' → taken.length = i.descriptor.inputs →
      Targets host i s target → post target s') :
    Ensures (callTarget host i) s post (Fails host i s) := by
  unfold callTarget
  cases himmediate : i.immediate with
  | some target =>
      refine Ensures.of_pure (hok target [] s (Taken.nothing s) ?_ (Or.inl himmediate))
      simp [hinputs, himmediate]
  | none =>
      have hone : i.descriptor.inputs = 1 := by simp [hinputs, himmediate]
      refine Ensures.of_bind (ensures_operand (Taken.nothing s) (by simp [hone]) (fun w s' h => ?_))
      refine Ensures.of_bind (ensures_checkEdge h (by simp [hone])
        ⟨himmediate, Or.inr (Or.inr hkind)⟩ (fun hdeclared => ?_))
      exact Ensures.of_pure (hok _ _ _ h (by simp [hone])
        (Or.inr ⟨himmediate, w, h.head?, rfl, hdeclared⟩))

theorem ensures_jumpSub (hkind : i.descriptor.kind = .jumpsub)
    (hinputs : i.descriptor.inputs = if i.immediate = none then 1 else 0) :
    Ensures (jumpSub host i) s (fun pc s' => Effect host i s (.goto pc) s') (Fails host i s) := by
  unfold jumpSub
  refine Ensures.of_bind (ensures_callTarget hkind hinputs
    (fun target taken s' h hall htarget => ?_))
  split
  · rename_i hmissed
    refine Ensures.of_bind (Ensures.of_throw (h.fails (Nat.le_of_eq hall) ?_))
    exact .notEntry hkind htarget (by simpa using hmissed)
  · rename_i hlands
    refine Ensures.of_bind (Ensures.of_get ?_)
    unfold pushReturn
    split
    · rename_i f hpush
      split at hpush
      · rename_i hfull
        cases hpush
        rw [h.calls] at hfull
        exact Ensures.of_throw (h.fails (Nat.le_of_eq hall) (.returnsFull hkind htarget hfull))
      · cases hpush
    · rename_i calls hpush
      split at hpush
      · cases hpush
      · rename_i hroom
        cases hpush
        rw [h.calls] at hroom
        refine Ensures.of_bind (Ensures.of_set (Ensures.of_pure ?_))
        refine .called hkind htarget (by simpa using hlands) ⟨(h.takes hall).1, (h.takes hall).2⟩ ?_
          (by omega)
        simp only [h.calls]

theorem ensures_returnSub (hkind : i.descriptor.kind = .returnsub) :
    Ensures (returnSub i) s (fun pc s' => Effect host i s (.goto pc) s') (Fails host i s) := by
  unfold returnSub popReturn
  refine Ensures.of_bind (Ensures.of_get ?_)
  cases hpop : s.calls.pop? with
  | none =>
      refine Ensures.of_throw ((Taken.nothing s).fails (Nat.zero_le _) (.returnsEmpty hkind ?_))
      have hstack : s.calls.stack.pop? = none := by
        simpa [ReturnStack.pop?] using hpop
      exact items_of_pop?_eq_none hstack
  | some r =>
      obtain ⟨target, calls⟩ := r
      exact Ensures.of_bind (Ensures.of_set (Ensures.of_pure (.returned hkind hpop rfl)))

theorem ensures_haltWith {reason : HaltReason} (hkind : i.descriptor.kind = .terminal)
    (hinputs : i.descriptor.inputs = 2) :
    Ensures (haltWith host reason) s (Effect host i s) (Fails host i s) := by
  unfold haltWith
  refine Ensures.of_bind (ensures_operand (Taken.nothing s) (by simp [hinputs])
    (fun offset s₁ h₁ => ?_))
  refine Ensures.of_bind (ensures_operand h₁ (by simp [hinputs]) (fun size s₂ h₂ => ?_))
  refine Ensures.of_bind (ensures_readMemory h₂ (by simp [hinputs]) (fun data s₃ h₃ => ?_))
  exact Ensures.of_pure (.halted hkind (h₃.takes (by simp [hinputs])) h₃.calls)

/-- Everything that a decoded instruction can do. -/
theorem ensures_step {pc : Nat} (hpc : pc < host.program.length)
    (hdecoded : host.program.decode pc = .ok i) :
    Ensures (step host i) s (Effect host i s) (Fails host i s) := by
  have hrow := Program.decode_descriptor hpc hdecoded
  have himmediate := Program.decode_immediate hpc hdecoded
  have hgoto : ∀ {action : Action Nat},
      Ensures action s (fun pc s' => Effect host i s (.goto pc) s') (Fails host i s) →
        Ensures (do return .goto (← action)) s (Effect host i s) (Fails host i s) :=
    fun h => Ensures.of_bind (h.mono (fun _ _ h => Ensures.of_pure h) (fun _ _ h => h))
  -- by opcode, since the row of an opcode gives its kind, its operands and its width
  unfold step control?
  cases hop : i.opcode
  case stop =>
    simp only [hrow, hop, OperandMode.describe]
    refine Ensures.of_pure (.halted (by rw [hrow, hop]; rfl) ((Taken.nothing s).takes ?_) rfl)
    rw [hrow, hop]
    rfl
  case ret | revert =>
    simp only [hrow, hop, OperandMode.describe]
    exact ensures_haltWith (by rw [hrow, hop]; rfl) (by rw [hrow, hop]; rfl)
  case jump =>
    simp only [hrow, hop, OperandMode.describe]
    refine hgoto (ensures_jump ?_ (by rw [hrow, hop]; rfl) (by rw [hrow, hop]; rfl))
    rw [himmediate, hrow, hop]
    rfl
  case jumpi =>
    simp only [hrow, hop, OperandMode.describe]
    refine hgoto (ensures_jumpIf ?_ (by rw [hrow, hop]; rfl) (by rw [hrow, hop]; rfl))
    rw [himmediate, hrow, hop]
    rfl
  case beginsub =>
    simp only [hrow, hop, OperandMode.describe]
    exact hgoto (Ensures.of_pure (.began (by rw [hrow, hop]; rfl) rfl rfl))
  case returnsub =>
    simp only [hrow, hop, OperandMode.describe]
    exact hgoto (ensures_returnSub (by rw [hrow, hop]; rfl))
  case jumpsub =>
    have hkind : i.descriptor.kind = .jumpsub := by
      rw [hrow, hop]
      cases host.program.mode <;> rfl
    have hinputs : i.descriptor.inputs = if i.immediate = none then 1 else 0 := by
      rw [himmediate, hrow, hop]
      cases host.program.mode <;> rfl
    simp only [hkind]
    exact hgoto (ensures_jumpSub hkind hinputs)
  all_goals
    simp only [hrow, hop, OperandMode.describe]
    refine Ensures.of_bind ((ensures_compute hrow).mono ?_ (fun _ _ h => h))
    intro _ s' h
    exact Ensures.of_pure (.computed h.2.2 h.1 h.2.1)

/-! ## The items that an instruction leaves alone -/

/-- Duplication and exchange, too, leave everything below their operands alone. -/
theorem Computes.items {mode : OperandMode} {items items' : List Word}
    (h : Computes i items items') (hrow : i.descriptor = mode.describe i.opcode) :
    i.descriptor.inputs ≤ items.length ∧ ∃ new, new.length = i.descriptor.outputs ∧
      items' = new ++ items.drop i.descriptor.inputs := by
  unfold Computes at h
  split at h
  · rename_i n hop
    refine ⟨by simp [hrow, hop, OperandMode.describe], [Word.ofNat (i.immediate.getD 0)], ?_, ?_⟩
    · simp [hrow, hop, OperandMode.describe]
    · simp [hrow, hop, OperandMode.describe, h]
  · rename_i n hop
    obtain ⟨w, hw, rfl⟩ := h
    have hlength := (List.getElem?_eq_some_iff.1 hw).1
    have hinputs : i.descriptor.inputs = n.val + 1 := by rw [hrow, hop]; rfl
    have houtputs : i.descriptor.outputs = n.val + 2 := by rw [hrow, hop]; rfl
    rw [hinputs, houtputs]
    refine ⟨hlength, w :: items.take (n.val + 1), ?_, ?_⟩
    · rw [List.length_cons, List.length_take, Nat.min_eq_left hlength]
    · rw [List.cons_append, List.take_append_drop]
  · rename_i n hop
    obtain ⟨a, b, -, hb, rfl⟩ := h
    have hlength := (List.getElem?_eq_some_iff.1 hb).1
    have hinputs : i.descriptor.inputs = n.val + 2 := by rw [hrow, hop]; rfl
    have houtputs : i.descriptor.outputs = n.val + 2 := by rw [hrow, hop]; rfl
    rw [hinputs, houtputs]
    refine ⟨hlength, ((items.set 0 b).set (n.val + 1) a).take (n.val + 2), ?_, ?_⟩
    · rw [List.length_take, List.length_set, List.length_set, Nat.min_eq_left hlength]
    · have hdrop : items.drop (n.val + 2) =
          ((items.set 0 b).set (n.val + 1) a).drop (n.val + 2) := by
        rw [List.drop_set_of_lt (by omega), List.drop_set_of_lt (by omega)]
      rw [hdrop, List.take_append_drop]
  · exact h

/-- Instructions that move control leave no results. -/
theorem row_of_control {mode : OperandMode} (hrow : i.descriptor = mode.describe i.opcode)
    (hplain : i.descriptor.kind ≠ .plain) (hpush : i.descriptor.kind ≠ .push) :
    i.descriptor.outputs = 0 ∧
      (i.descriptor.kind = .beginsub ∨ i.descriptor.kind = .returnsub →
        i.descriptor.inputs = 0) ∧
      (i.descriptor.kind = .jumpi → i.descriptor.inputs = 2) := by
  rw [hrow] at hplain hpush ⊢
  cases hop : i.opcode <;> cases mode <;> simp_all [OperandMode.describe]

/-- Whatever an instruction does, it has its operands and leaves results in their place. -/
theorem Effect.items {mode : OperandMode} {next : Next} {s' : State} (h : Effect host i s next s')
    (hrow : i.descriptor = mode.describe i.opcode) :
    i.descriptor.inputs ≤ s.stack.items.length ∧ ∃ new, new.length = i.descriptor.outputs ∧
      s'.stack.items = new ++ s.stack.items.drop i.descriptor.inputs := by
  have htaken : i.descriptor.kind ≠ .plain → i.descriptor.kind ≠ .push → Takes i s s' →
      i.descriptor.inputs ≤ s.stack.items.length ∧ ∃ new, new.length = i.descriptor.outputs ∧
        s'.stack.items = new ++ s.stack.items.drop i.descriptor.inputs := by
    intro hplain hpush htakes
    exact ⟨htakes.1, [], by rw [(row_of_control hrow hplain hpush).1]; rfl, htakes.2⟩
  have hkept : i.descriptor.kind = .beginsub ∨ i.descriptor.kind = .returnsub →
      s'.stack.items = s.stack.items → Takes i s s' := by
    intro hkind hitems
    have hzero : i.descriptor.inputs = 0 :=
      (row_of_control hrow (by rcases hkind with h | h <;> simp [h])
        (by rcases hkind with h | h <;> simp [h])).2.1 hkind
    exact ⟨by rw [hzero]; exact Nat.zero_le _, by rw [hzero, hitems, List.drop_zero]⟩
  cases h with
  | computed hkind hitems hcalls => exact hitems.items hrow
  | began hkind hitems hcalls =>
      exact htaken (by simp [hkind]) (by simp [hkind]) (hkept (Or.inl hkind) hitems)
  | jumped hkind _ _ _ htakes _ =>
      exact htaken (by rcases hkind with h | h <;> simp [h])
        (by rcases hkind with h | h <;> simp [h]) htakes
  | fell hkind htakes _ => exact htaken (by simp [hkind]) (by simp [hkind]) htakes
  | called hkind _ _ htakes _ _ => exact htaken (by simp [hkind]) (by simp [hkind]) htakes
  | returned hkind _ hitems =>
      exact htaken (by simp [hkind]) (by simp [hkind]) (hkept (Or.inr hkind) hitems)
  | halted hkind htakes _ => exact htaken (by simp [hkind]) (by simp [hkind]) htakes

end FlowCheck.Machine
