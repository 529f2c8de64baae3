import FlowCheck.Probe.Limits
import FlowCheck.Proofs.Iterations
import FlowCheck.Proofs.Results

/-!
# The data of a run

A run under integer limits keeps its stack, its memory and its steps within them, and the result of
every instruction passes the range check of words.  So a run has an outcome, but for two ways out
that the limits leave open (`Escapes`): a limit with too many digits cannot be named in the fault
that goes beyond it, and memory that the limit allows may be more than there is room for.  Nothing
is assumed about the room; where it is enough for the limit (`HasRoom`) only the first way is left.
-/

namespace FlowCheck

namespace Machine

variable {host : Host} {budget : Amount} {s : State}

/-! ## Runs -/

theorem state_runFrom_zero (host : Host) (budget : Amount) (s : State) :
    (runFrom host budget 0 s).state = s := by
  rw [runFrom]
  cases host.program.decode s.pc with
  | error r => rfl
  | ok i =>
      dsimp only
      split <;> rfl

/-- A run ends within its limits, and counts no more steps than there are in the budget. -/
theorem runFrom_within (hs : Within host s) (n : Nat) :
    Within host (runFrom host budget n s).state ∧
      (runFrom host budget n s).state.steps ≤ s.steps + n := by
  induction n generalizing s with
  | zero =>
      rw [state_runFrom_zero]
      exact ⟨hs, Nat.le_refl _⟩
  | succ n ih =>
      rcases iterations_cases host (n + 1) s with ⟨-, hends⟩ | ⟨m, s', hm, hadvance, -, hrun⟩
      · -- the last instruction of the run, if one is executed at all
        rcases (hends budget).state with hstate | ⟨⟨next, hleaves⟩, -⟩
        · rw [hstate]
          exact ⟨hs, Nat.le_add_right _ _⟩
        · obtain ⟨hcount, hkept, -⟩ := hleaves.steady hs
          exact ⟨hkept, by omega⟩
      · obtain rfl : n = m := by omega
        obtain ⟨hcount, hkept⟩ := hadvance.within hs
        obtain ⟨hwithin, hsteps⟩ := ih hkept
        rw [hrun budget]
        exact ⟨hwithin, by omega⟩

theorem run_within (host : Host) (budget : Amount) :
    Within host (run host budget).state ∧ (run host budget).state.steps ≤ budget.ceil.toNat := by
  obtain ⟨hwithin, hsteps⟩ := runFrom_within (Passed.start.within).1 budget.ceil.toNat
  refine ⟨hwithin, Nat.le_trans hsteps ?_⟩
  show 0 + budget.ceil.toNat ≤ budget.ceil.toNat
  omega

/-- A fault at the end of a run is about the decoding, or is as it says. -/
theorem Ends.truthful {o : Outcome} {f : Fault} (h : Ends host budget s o) (hs : Within host s)
    (hf : o.ending = .faulted f) : (∃ c, f.cause = .undecodable c) ∨ Truthful host f.cause := by
  cases h with
  | undecodable hdecode =>
      cases hf
      exact Or.inl ⟨_, rfl⟩
  | endOfCode => cases hf
  | outOfSteps =>
      cases hf
      exact Or.inr trivial
  | faulted hleaves =>
      cases hf
      obtain ⟨-, -, hfault⟩ := hleaves.steady hs
      exact Or.inr (hfault f rfl).2
  | halted => cases hf

/-- The instruction at an iteration: its result passes the range check of words, and if it succeeds
it had its operands and leaves that result. -/
structure Checked (host : Host) (s : State) : Prop where
  range : ∀ i n, s.pc < host.program.length → host.program.decode s.pc = .ok i →
    result? host i s = some n → Word.ofValue (.int n) = .ok (Word.ofInt n)
  made : ∀ i next s', host.program.decode s.pc = .ok i → Leaves host s (.ok next) s' →
    i.descriptor.inputs ≤ s.stack.items.length ∧ Made host i s s'

theorem checked_of_sizes (hcode : host.program.length < wordModulus)
    (hdata : host.calldata.size < wordModulus) (hmemory : s.memory.size < wordModulus) :
    Checked host s where
  range i n hpc hi hresult := by
    obtain ⟨w, rfl⟩ := result?_word hpc hi hcode hdata hmemory hresult
    rw [Word.ofValue_toNat, Word.ofInt_toNat]
  made i next s' hi hleaves := hleaves.made hi

end Machine

namespace Probe

open Machine

/-- A run under limits ends as the machine does, unless its fault has another meaning. -/
theorem Limits.run_cases (l : Limits) (host : Host) {o : Outcome}
    (ho : o = Machine.run (l.applyTo host) (amountOf l.steps)) :
    (∃ ending, l.run host = .ok ⟨ending, o.state⟩) ∨
      ∃ f e, o.ending = .faulted f ∧ l.interpret o f = .error e ∧ l.run host = .error e := by
  unfold run
  rw [← ho]
  obtain ⟨ending, state⟩ := o
  cases ending with
  | halted reason data => exact Or.inl ⟨.halted reason data, rfl⟩
  | faulted f =>
      dsimp only
      cases hinterpret : l.interpret ⟨.faulted f, state⟩ f with
      | ok f' => exact Or.inl ⟨.faulted f', rfl⟩
      | error e => exact Or.inr ⟨f, e, rfl, hinterpret, rfl⟩

/-- Memory in words needs more than there is exactly if its last word does. -/
theorem Room.bytes_lt_roundUp_iff {r : Room} {n : Nat} :
    r.bytes < Memory.roundUp n ↔ r.wholeWords < n := by
  unfold wholeWords Memory.roundUp
  omega

/-- Limits of a run that are all integers, with the room that there is. -/
structure WholeLimits where
  stack : Int
  calls : Int
  memory : Int
  steps : Int
  value : Int
  room : Room

namespace WholeLimits

variable {l : WholeLimits} {host : Host} {s : State}

def toLimits (l : WholeLimits) : Limits :=
  ⟨.int l.stack, .int l.calls, .int l.memory, .int l.steps, .int l.value, l.room⟩

/-- There is room for all the memory that the limit allows. -/
def HasRoom (l : WholeLimits) : Prop :=
  Memory.roundUp l.memory.toNat ≤ l.room.bytes

/-- The data of a run at an iteration. -/
structure Sized (l : WholeLimits) (s : State) : Prop where
  words : ∀ w ∈ s.stack.items, w.toNat < 2 ^ 256
  height : (s.stack.height : Int) ≤ max 0 l.stack
  whole : 32 ∣ s.memory.size
  bound : (s.memory.size : Int) ≤ 32 * ((max 0 l.memory + 31) / 32)
  count : (s.steps : Int) ≤ max 0 l.steps

theorem memoryAmount_toLimits (l : WholeLimits) :
    l.toLimits.memoryAmount = .whole (min l.memory l.room.wholeWords) := by
  show (if (l.room.wholeWords : Int) ≤ l.memory then Amount.whole l.room.wholeWords
    else Amount.whole l.memory) = _
  split
  · rw [Int.min_eq_right (by assumption)]
  · rw [Int.min_eq_left (by omega)]

theorem size_le_of_within (h : Within (l.toLimits.applyTo host) s) :
    s.memory.size ≤ Memory.roundUp (min l.memory l.room.wholeWords).toNat := by
  have hbound := h.memory.bound
  change s.memory.size ≤ Memory.roundUp l.toLimits.memoryAmount.floor.toNat at hbound
  rw [memoryAmount_toLimits, Amount.floor_whole] at hbound
  exact hbound

theorem sized_of_within (h : Within (l.toLimits.applyTo host) s)
    (hsteps : s.steps ≤ l.steps.toNat) : l.Sized s := by
  refine ⟨fun w _ => w.isLt, h.height, h.memory.words, ?_, by omega⟩
  have hbound := size_le_of_within h
  unfold Memory.roundUp at hbound
  omega

theorem checked_of_within (hcode : host.program.length < wordModulus)
    (hdata : host.calldata.size < wordModulus) (hmemory : l.memory ≤ 2 ^ 256 - 32)
    (h : Within (l.toLimits.applyTo host) s) : Checked (l.toLimits.applyTo host) s := by
  have hbound := size_le_of_within h
  have hround : Memory.roundUp (min l.memory l.room.wholeWords).toNat ≤
      Memory.roundUp (2 ^ 256 - 32) := Memory.roundUp_mono (by omega)
  have hlast : Memory.roundUp (2 ^ 256 - 32) < wordModulus := by decide
  apply checked_of_sizes
  · exact hcode
  · exact hdata
  · omega

/-! ## Runs without an outcome -/

/-- How a run that ends with so much memory can have no outcome. -/
inductive Escapes (l : WholeLimits) (size : Nat) : Misuse → Prop
  | unprintable {limit : Int} (hlimit : limit ∈ [l.stack, l.calls, l.memory, l.steps])
      (hlong : Text.Numeral.isPrintable limit = false) : Escapes l size .unprintable
  | growth {reach : Nat} (hallowed : (reach : Int) ≤ l.memory)
      (hmore : l.room.bytes < Memory.roundUp reach) :
      Escapes l size (l.room.refusal (Memory.roundUp reach - size))

theorem beyond_int (limit : Int) (f : Fault) :
    beyond (.int limit) f =
      if Text.Numeral.isPrintable limit then .ok f else .error .unprintable := by
  have hamount : isAmount (.int limit) = true := rfl
  have hprinted : (Value.int limit).isPrintable = Text.Numeral.isPrintable limit := by
    rw [Value.isPrintable]
  rw [beyond, hamount, hprinted, Bool.not_true, if_neg Bool.false_ne_true]

theorem escapes_of_beyond {limit : Int} {f : Fault} {e : Misuse} {size : Nat}
    (hlimit : limit ∈ [l.stack, l.calls, l.memory, l.steps])
    (h : beyond (.int limit) f = .error e) : l.Escapes size e := by
  rw [beyond_int] at h
  split at h
  · cases h
  · rename_i hlong
    cases h
    exact .unprintable hlimit (by simpa using hlong)

theorem escapes_of_interpret {o : Outcome} {f : Fault} {e : Misuse}
    (hf : (∃ c, f.cause = .undecodable c) ∨ Truthful (l.toLimits.applyTo host) f.cause)
    (h : l.toLimits.interpret o f = .error e) : l.Escapes o.state.memory.size e := by
  unfold Limits.interpret at h
  cases hcause : f.cause <;> simp only [hcause] at h
  case stackFull | returnStackFull | outOfSteps => exact escapes_of_beyond (by simp) h
  case valueNotWhole =>
    -- the value is an integer
    rw [hcause] at hf
    obtain ⟨c, hc⟩ | hnone := hf
    · cases hc
    · cases hnone
  case memoryLimit reach limit =>
    rw [hcause] at hf
    obtain ⟨c, hc⟩ | hover := hf
    · cases hc
    · change l.toLimits.memoryAmount.floor < reach at hover
      rw [memoryAmount_toLimits, Amount.floor_whole] at hover
      change (if l.memory < reach then beyond (.int l.memory) _ else
        .error (l.room.refusal (Memory.roundUp reach - o.state.memory.size))) =
          Except.error e at h
      split at h
      · exact escapes_of_beyond (by simp) h
      · cases h
        exact .growth (by omega) (Room.bytes_lt_roundUp_iff.2 (by omega))
  all_goals cases h

theorem escapes_of_run {o : Outcome} {e : Misuse}
    (ho : o = Machine.run (l.toLimits.applyTo host) (.whole l.steps))
    (h : l.toLimits.run host = .error e) : l.Escapes o.state.memory.size e := by
  obtain ⟨past, last, hiterations, hends⟩ :=
    iterations_ends (l.toLimits.applyTo host) (.whole l.steps) l.steps.toNat {}
  obtain ⟨hpassed, -⟩ := passed_of_iterations .start hiterations
  change Ends _ _ last (Machine.run (l.toLimits.applyTo host) (.whole l.steps)) at hends
  rw [← ho] at hends
  rcases l.toLimits.run_cases host ho with ⟨ending, hrun⟩ | ⟨f, e', hf, hinterpret, hrun⟩
  · rw [hrun] at h
    cases h
  · rw [hrun] at h
    cases h
    exact escapes_of_interpret (hends.truthful hpassed.within.1 hf) hinterpret

/-- At every iteration of a run the words are in range, the stack, the memory and the steps are
within their limits, and the result of the instruction passes the range check; the end of a run is
within the limits as well.  Whatever room there is, a run has no outcome only if a limit is too long
to be named, or if it reaches into memory that is within the limit and more than there is room for.
So it has one if there is room for the limit and every limit can be named. -/
theorem data_of_run (l : WholeLimits) (host : Host) (hcode : host.program.length < wordModulus)
    (hdata : host.calldata.size < wordModulus) (hmemory : l.memory ≤ 2 ^ 256 - 32) :
    (∀ s ∈ iterations (l.toLimits.applyTo host) l.steps.toNat {},
      l.Sized s ∧ Checked (l.toLimits.applyTo host) s) ∧
    (∀ o, l.toLimits.run host = .ok o → l.Sized o.state) ∧
    (∀ e, l.toLimits.run host = .error e →
      l.Escapes (Machine.run (l.toLimits.applyTo host) (.whole l.steps)).state.memory.size e) ∧
    (l.HasRoom →
      (∀ limit ∈ [l.stack, l.calls, l.memory, l.steps], Text.Numeral.isPrintable limit = true) →
        ∃ o, l.toLimits.run host = .ok o) := by
  obtain ⟨final, hfinal⟩ : ∃ o, o = Machine.run (l.toLimits.applyTo host) (.whole l.steps) :=
    ⟨_, rfl⟩
  refine ⟨?_, ?_, ?_, ?_⟩
  · intro s hs
    obtain ⟨past, rest, hiterations⟩ := List.append_of_mem hs
    obtain ⟨hpassed, hlength⟩ := passed_of_iterations .start hiterations
    obtain ⟨hwithin, hcount⟩ := hpassed.within
    refine ⟨sized_of_within hwithin ?_, checked_of_within hcode hdata hmemory hwithin⟩
    rw [hcount]
    exact hlength
  · intro o ho
    rcases l.toLimits.run_cases host hfinal with ⟨ending, hrun⟩ | ⟨f, e, -, -, hrun⟩
    · rw [hrun] at ho
      cases ho
      obtain ⟨hwithin, hsteps⟩ := run_within (l.toLimits.applyTo host) (.whole l.steps)
      rw [← hfinal] at hwithin hsteps
      exact sized_of_within hwithin hsteps
    · rw [hrun] at ho
      cases ho
  · intro e he
    exact escapes_of_run rfl he
  · intro hroom hprinted
    cases hrun : l.toLimits.run host with
    | ok o => exact ⟨o, rfl⟩
    | error e =>
        cases escapes_of_run rfl hrun with
        | unprintable hlimit hlong =>
            rw [hprinted _ hlimit] at hlong
            cases hlong
        | @growth reach hallowed hmore =>
            have hround := Memory.roundUp_mono (show reach ≤ l.memory.toNat by omega)
            exact absurd (Nat.le_trans hround hroom) (Nat.not_le.2 hmore)

end WholeLimits

/-- How an operation failed, if it did. -/
def misuse? {α : Type} : Tried α → Option Misuse
  | .ok _ => none
  | .error e => some e

namespace Sample

/-- Stores a word where its last byte is the first of another one, and asks for the size. -/
def straddling : Host where
  program := Program.ofCode .immediate #[0x34, 0x60, 0x1f, 0x52, 0x59]

/-- Stores a word in the upper half of the addresses. -/
def storingHigh : Host where
  program := Program.ofCode .immediate
    (#[0x60, 0x01, 0x7f, 0x80] ++ Array.replicate 31 0x00 ++ #[0x52])

/-- Room for `2 ^ 36` bytes, asked for by numbers of 63 bits. -/
def room : Room :=
  ⟨2 ^ 36, 2 ^ 63⟩

/-- A memory limit that is not a number of whole words. -/
def tight : WholeLimits :=
  ⟨2, 0, 63, 4, -1, room⟩

/-- The greatest memory limit with which every size is a word. -/
def roomy : WholeLimits :=
  ⟨1024, 1024, 2 ^ 256 - 32, 1000, 0, room⟩

/-- A stack limit with too many digits to be written. -/
def unwritable : WholeLimits :=
  ⟨-(10 ^ 4300 : Nat), 1024, 2 ^ 20, 1000, 0, room⟩

end Sample

theorem data_of_run_straddling :
    Sample.straddling.program.length < wordModulus ∧
      Sample.straddling.calldata.size < wordModulus ∧
      Sample.tight.memory ≤ 2 ^ 256 - 32 ∧ Sample.tight.HasRoom ∧
      (∀ s ∈ iterations (Sample.tight.toLimits.applyTo Sample.straddling) 4 {},
        Sample.tight.Sized s ∧ Checked (Sample.tight.toLimits.applyTo Sample.straddling) s) ∧
      ∃ o, Sample.tight.toLimits.run Sample.straddling = .ok o ∧ Sample.tight.Sized o.state := by
  have hcode : Sample.straddling.program.length < wordModulus := by decide +kernel
  have hdata : Sample.straddling.calldata.size < wordModulus := by decide +kernel
  have hmemory : Sample.tight.memory ≤ 2 ^ 256 - 32 := by decide
  have hroom : Sample.tight.HasRoom := by
    unfold WholeLimits.HasRoom
    decide
  obtain ⟨hiterations, hends, -, houtcome⟩ :=
    WholeLimits.data_of_run Sample.tight Sample.straddling hcode hdata hmemory
  obtain ⟨o, ho⟩ := houtcome hroom (by decide +kernel)
  exact ⟨hcode, hdata, hmemory, hroom, hiterations, o, ho, hends o ho⟩

/-- Memory within the limit can be more than there is room for, and a limit can be too long to be
named, so that a run has no outcome. -/
theorem run_without_outcome :
    misuse? (Sample.roomy.toLimits.run Sample.storingHigh) = some .tooLarge ∧
      misuse? (Sample.unwritable.toLimits.run Sample.storingHigh) = some .unprintable := by
  constructor <;> decide +kernel

end Probe

end FlowCheck
