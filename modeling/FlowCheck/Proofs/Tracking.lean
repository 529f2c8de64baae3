import FlowCheck.Proofs.Execution
import FlowCheck.Validator.Constants

/-!
# Tracked constants are right

A list of constants describes a stack if every constant in it is the item at the same distance from
the top.  What the validation tracks across an instruction describes what the machine leaves.
-/

namespace FlowCheck.Program

/-- What a push puts on the stack fits in a word. -/
theorem decode_push_lt {p : Program} {pc : Nat} {i : Instruction} {n : Fin 32} (hpc : pc < p.length)
    (hdecoded : p.decode pc = .ok i) (hop : i.opcode = .push n) :
    i.immediate.getD 0 < wordModulus := by
  have hwidth : i.descriptor.width = n.val + 1 := by
    rw [decode_descriptor hpc hdecoded, hop]
    rfl
  have hdecode := Bytes.BigEndian.decode_lt (p.bytesAt (pc + 1) (n.val + 1))
  have hlength : (p.bytesAt (pc + 1) (n.val + 1)).length = n.val + 1 := by simp [bytesAt]
  have hpow : 256 ^ (n.val + 1) ≤ 256 ^ 32 := Nat.pow_le_pow_right (by omega) n.isLt
  have hmodulus : (256 : Nat) ^ 32 = wordModulus := by decide
  rw [decode_immediate hpc hdecoded, hwidth, if_neg (by omega), Option.getD_some]
  rw [hlength] at hdecode
  omega

end FlowCheck.Program

namespace FlowCheck.Validator.Constants

open Machine (Computes)

variable {known : Constants} {items items' : List Word} {i : Instruction}

/-- The list is no longer than the stack, and its constants are the items in their places. -/
def Describes (known : Constants) (items : List Word) : Prop :=
  known.length ≤ items.length ∧
    ∀ (j v : Nat), known[j]? = some (some v) → ∃ w, items[j]? = some w ∧ w.toNat = v

theorem describes_nil (items : List Word) : Describes [] items :=
  ⟨Nat.zero_le _, by simp⟩

theorem Describes.take (h : known.Describes items) (n : Nat) :
    Describes (known.take n) items := by
  refine ⟨Nat.le_trans (List.length_take_le' _ _) h.1, fun j v hj => ?_⟩
  rw [List.getElem?_take] at hj
  split at hj
  · exact h.2 j v hj
  · cases hj

theorem Describes.drop (h : known.Describes items) (n : Nat) :
    Describes (known.drop n) (items.drop n) := by
  refine ⟨?_, fun j v hj => ?_⟩
  · have hlength := h.1
    rw [List.length_drop, List.length_drop]
    omega
  · rw [List.getElem?_drop] at hj ⊢
    exact h.2 (n + j) v hj

/-- A constant on top is the top item. -/
theorem Describes.top {v : Nat} {w : Word} (h : known.Describes items) (htop : known.top? = some v)
    (hw : items.head? = some w) : w.toNat = v := by
  have hv : known[0]? = some (some v) := by
    rw [← List.head?_eq_getElem?]
    simpa [top?, Option.join_eq_some_iff] using htop
  obtain ⟨w', hw', rfl⟩ := h.2 0 v hv
  rw [List.head?_eq_getElem?, hw'] at hw
  cases hw
  rfl

theorem Describes.cons {entry : Option Nat} {w : Word} (h : known.Describes items)
    (hentry : ∀ v, entry = some v → w.toNat = v) : Describes (entry :: known) (w :: items) := by
  refine ⟨Nat.succ_le_succ h.1, fun j v hj => ?_⟩
  cases j with
  | zero =>
      rw [List.getElem?_cons_zero, Option.some.injEq] at hj
      exact ⟨w, rfl, hentry v hj⟩
  | succ j =>
      rw [List.getElem?_cons_succ] at hj ⊢
      exact h.2 j v hj

/-- Entries that are not known describe anything. -/
theorem Describes.unknown {new : List Word} (h : known.Describes items) :
    Describes (List.replicate new.length none ++ known) (new ++ items) := by
  induction new with
  | nil => exact h
  | cons w rest ih => exact ih.cons (by simp)

theorem Describes.pad {n : Nat} (h : known.Describes items) (hn : known.length + n ≤ items.length) :
    Describes (known ++ List.replicate n none) items := by
  refine ⟨by simpa using hn, fun j v hj => ?_⟩
  rw [List.getElem?_append] at hj
  split at hj
  · exact h.2 j v hj
  · rw [List.getElem?_replicate] at hj
    split at hj <;> cases hj

theorem Describes.set {n : Nat} {entry : Option Nat} {w : Word} (h : known.Describes items)
    (hentry : ∀ v, entry = some v → w.toNat = v) :
    Describes (known.set n entry) (items.set n w) := by
  refine ⟨by simpa using h.1, fun j v hj => ?_⟩
  have hlength : j < known.length := by
    simpa using (List.getElem?_eq_some_iff.1 hj).1
  rw [List.getElem?_set] at hj ⊢
  have hbound := h.1
  by_cases hn : n = j
  · subst hn
    simp only [if_true, hlength, Option.some.injEq] at hj
    exact ⟨w, by simp [Nat.lt_of_lt_of_le hlength hbound], hentry v hj⟩
  · simp only [hn, if_false] at hj ⊢
    exact h.2 j v hj

/-- The entry of a list that describes a stack is right about the item in its place. -/
theorem Describes.entry {n : Nat} {entry : Option Nat} {w : Word} (h : known.Describes items)
    (hentry : known[n]? = some entry) (hw : items[n]? = some w) :
    ∀ v, entry = some v → w.toNat = v := by
  rintro v rfl
  obtain ⟨w', hw', hv⟩ := h.2 n v hentry
  rw [hw] at hw'
  cases hw'
  exact hv

theorem Describes.swap {n : Nat} {a b : Word} (h : known.Describes items)
    (ha : items[0]? = some a) (hb : items[n + 1]? = some b) :
    Describes (known.swap n) ((items.set 0 b).set (n + 1) a) := by
  have hlength := (List.getElem?_eq_some_iff.1 hb).1
  have hbound := h.1
  -- the list is filled up to the deeper of the two places, which the stack is known to have
  obtain ⟨filled, hfilled⟩ : ∃ filled : Constants,
      filled = known ++ List.replicate (n + 2 - known.length) none := ⟨_, rfl⟩
  have hdescribes : filled.Describes items := by
    rw [hfilled]
    exact h.pad (by omega)
  have hsize : n + 2 ≤ filled.length := by
    rw [hfilled, List.length_append, List.length_replicate]
    omega
  obtain ⟨x, hx⟩ : ∃ x, filled[0]? = some x := ⟨_, List.getElem?_eq_getElem (by omega)⟩
  obtain ⟨y, hy⟩ : ∃ y, filled[n + 1]? = some y := ⟨_, List.getElem?_eq_getElem (by omega)⟩
  have hswap : known.swap n = (filled.set 0 y).set (n + 1) x := by
    simp only [Constants.swap, ← hfilled, hx, hy]
  rw [hswap]
  exact (hdescribes.set (hdescribes.entry hy hb)).set (hdescribes.entry hx ha)

/-- Tracking a plain instruction. -/
theorem Describes.afterPlain {mode : OperandMode} (h : known.Describes items)
    (hrow : i.descriptor = mode.describe i.opcode) (hkind : i.descriptor.kind = .plain)
    (hcomputes : Computes i items items') :
    Describes (known.afterPlain i.descriptor) items' := by
  have hopcode : i.descriptor.opcode = i.opcode := rfl
  unfold Constants.afterPlain
  unfold Computes at hcomputes
  rw [hopcode]
  cases hop : i.opcode
  case push n =>
    rw [hrow, hop] at hkind
    cases hkind
  case dup n =>
    simp only [hop] at hcomputes
    obtain ⟨w, hw, rfl⟩ := hcomputes
    refine h.cons (fun v hv => ?_)
    exact h.entry (Option.join_eq_some_iff.1 hv) hw v rfl
  case swap n =>
    simp only [hop] at hcomputes
    obtain ⟨a, b, ha, hb, rfl⟩ := hcomputes
    exact h.swap ha hb
  all_goals
    simp only [hop] at hcomputes
    obtain ⟨-, new, hnew, rfl⟩ := hcomputes
    rw [← hnew]
    exact (h.drop _).unknown

/-- Tracking a push: an immediate has at most the bytes of a word, so the word is its value. -/
theorem Describes.afterPush {p : Program} {pc : Nat} (h : known.Describes items)
    (hpc : pc < p.length) (hdecoded : p.decode pc = .ok i) (hkind : i.descriptor.kind = .push)
    (hcomputes : Computes i items items') :
    Describes (known.afterPush i.immediate) items' := by
  have hrow := Program.decode_descriptor hpc hdecoded
  obtain ⟨n, hop⟩ : ∃ n, i.opcode = .push n := by
    rw [hrow] at hkind
    cases hop : i.opcode <;> cases hmode : p.mode <;>
      simp_all [OperandMode.describe]
  obtain rfl : items' = Word.ofNat (i.immediate.getD 0) :: items := by
    simpa only [Computes, hop] using hcomputes
  refine h.cons (fun v hv => ?_)
  have hlt := Program.decode_push_lt hpc hdecoded hop
  rw [hv, Option.getD_some] at hlt ⊢
  exact Nat.mod_eq_of_lt hlt

end FlowCheck.Validator.Constants
