import FlowCheck.Proofs.Data
import FlowCheck.Proofs.ExactResults

/-!
# Memory and what was written to it

The memory behaves as an array of zeros without an end.  A sequence of accesses leaves behind those
of them that succeeded (`Session`), and the byte that the last of these wrote to a position is what
the memory holds there (`Session.Faithful`): growing adds zeros, a write changes its own range, an
access that reads changes nothing, and one that fails leaves everything as it was.  One equation
says what a single access does (`Bench.run_perform`); every statement about sequences follows from
it.
-/

namespace FlowCheck.Probe

/-! ## Accesses -/

/-- An access to the memory at a natural offset. -/
inductive Access where
  /-- Writes a word. -/
  | storeWord (offset : Nat) (word : Word)
  /-- Writes the low byte of an integer. -/
  | storeByte (offset : Nat) (value : Int)
  /-- Reads a word. -/
  | loadWord (offset : Nat)
  /-- Reads a range of bytes. -/
  | read (offset size : Nat)

/-- What an access gives back. -/
inductive Reply where
  /-- Nothing. -/
  | done
  /-- The number of a word. -/
  | word (n : Nat)
  /-- Bytes. -/
  | bytes (bs : List UInt8)
  deriving DecidableEq

namespace Access

/-- The first position of an access. -/
def offset : Access → Nat
  | storeWord offset _ | storeByte offset _ | loadWord offset | read offset _ => offset

/-- The number of positions of an access. -/
def size : Access → Nat
  | storeWord .. | loadWord _ => 32
  | storeByte .. => 1
  | read _ size => size

/-- The first position behind an access. -/
def reach (a : Access) : Nat :=
  a.offset + a.size

/-- The bytes that an access writes from its offset on. -/
def written : Access → List UInt8
  | storeWord _ word => word.toBytes
  | storeByte _ value => [UInt8.ofNat (value % 256).toNat]
  | loadWord _ | read .. => []

/-- The byte that an access writes to a position. -/
def writes? (a : Access) (position : Nat) : Option UInt8 :=
  if a.offset ≤ position then a.written[position - a.offset]? else none

/-- What an access gives back when memory holds these bytes. -/
def answer (contents : Nat → UInt8) : Access → Reply
  | storeWord .. | storeByte .. => .done
  | loadWord offset =>
      .word (Bytes.BigEndian.decode ((List.range 32).map (fun i => contents (offset + i))))
  | read offset size => .bytes ((List.range size).map (fun i => contents (offset + i)))

/-- The access as an action on the bench. -/
def perform (b : Bench) : Access → Bench.Action Reply
  | storeWord offset word => do
      b.storeWord (.nat offset) (.nat word.toNat)
      return .done
  | storeByte offset value => do
      b.storeByte (.nat offset) (.int value)
      return .done
  | loadWord offset => return .word (← b.loadWord (.nat offset))
  | read offset size => return .bytes (← b.readMemory (.nat offset) (.nat size)).toList

end Access

/-- The byte that the newest of some accesses wrote to a position, zero if none of them did. -/
def latest (accesses : List Access) (position : Nat) : UInt8 :=
  (accesses.findSome? (·.writes? position)).getD 0

theorem latest_cons (a : Access) (accesses : List Access) (position : Nat) :
    latest (a :: accesses) position = (a.writes? position).getD (latest accesses position) := by
  unfold latest
  rw [List.findSome?_cons]
  cases a.writes? position <;> rfl

/-! ## Contents -/

/-- The byte at a position of a memory, zero behind its end. -/
def byteOf (m : Array UInt8) (position : Nat) : UInt8 :=
  m[position]?.getD 0

theorem byteOf_grow (m : Array UInt8) (size : Nat) :
    byteOf (Memory.grow ⟨m⟩ size).bytes = byteOf m := by
  funext position
  simp only [byteOf, Memory.grow, Array.getElem?_append, Array.getElem?_replicate]
  split
  · rfl
  · rename_i hbehind
    rw [Array.getElem?_eq_none (by omega)]
    split <;> rfl

theorem size_grow_ge (m : Array UInt8) (size : Nat) :
    size ≤ (Memory.grow ⟨m⟩ size).bytes.size := by
  have hsize := Memory.size_grow ⟨m⟩ size
  have hround := Memory.le_roundUp size
  unfold Memory.size at hsize
  omega

/-- A range of the memory that is all there. -/
theorem toList_extract {m : Array UInt8} {offset size : Nat} (h : offset + size ≤ m.size) :
    (m.extract offset (offset + size)).toList =
      (List.range size).map (fun i => byteOf m (offset + i)) := by
  apply List.ext_getElem?
  intro i
  rw [Array.getElem?_toList, Array.getElem?_extract, List.getElem?_map]
  by_cases hi : i < size
  · rw [if_pos (by omega), List.getElem?_range hi, Option.map_some, byteOf,
      Array.getElem?_eq_getElem (by omega)]
    rfl
  · rw [if_neg (by omega), List.getElem?_eq_none (by simp; omega)]
    rfl

/-- Replacing a range by as many bytes changes the positions of that range. -/
theorem byteOf_splice {m : Array UInt8} {offset : Nat} {bytes : List UInt8}
    (h : offset + bytes.length ≤ m.size) (position : Nat) :
    byteOf (Bench.splice m offset (offset + bytes.length) bytes) position =
      (if offset ≤ position then bytes[position - offset]? else none).getD (byteOf m position) := by
  have hmax : max offset (offset + bytes.length) = offset + bytes.length := by omega
  have hmin : min offset m.size = offset := by omega
  unfold byteOf Bench.splice
  rw [hmax, Array.getElem?_append, Array.size_append, Array.size_extract, hmin, Nat.sub_zero,
    List.size_toArray, Array.getElem?_append, Array.size_extract, hmin, Nat.sub_zero,
    Array.getElem?_extract, Array.getElem?_extract, Nat.min_self]
  by_cases hbefore : position < offset
  · rw [if_pos (by omega), if_pos hbefore, if_pos (by omega), if_neg (by omega), Nat.zero_add]
    rfl
  · by_cases hinside : position < offset + bytes.length
    · rw [if_pos hinside, if_neg hbefore, if_pos (by omega), List.getElem?_toArray,
        List.getElem?_eq_getElem (by omega)]
      rfl
    · have hplace : offset + bytes.length + (position - (offset + bytes.length)) = position := by
        omega
      rw [if_neg hinside, List.getElem?_eq_none (by omega), ite_self, hplace]
      split
      · rfl
      · rw [Array.getElem?_eq_none (by omega)]
        rfl

theorem byteOf_set {m : Array UInt8} {offset : Nat} (h : offset < m.size) (byte : UInt8)
    (position : Nat) :
    byteOf (m.setIfInBounds offset byte) position =
      (if offset ≤ position then [byte][position - offset]? else none).getD
        (byteOf m position) := by
  unfold byteOf
  rw [Array.getElem?_setIfInBounds]
  by_cases hplace : offset = position
  · subst hplace
    simp [h]
  · rw [if_neg hplace]
    split
    · rw [List.getElem?_eq_none (by simp; omega)]
      rfl
    · rfl

theorem size_splice {m : Array UInt8} {offset : Nat} {bytes : List UInt8}
    (h : offset + bytes.length ≤ m.size) :
    (Bench.splice m offset (offset + bytes.length) bytes).size = m.size := by
  simp only [Bench.splice, Array.size_append, Array.size_extract, List.size_toArray]
  omega

/-- The memory after an access whose positions are all there. -/
def Access.store (a : Access) (m : Array UInt8) : Array UInt8 :=
  match a with
  | storeWord offset word => Bench.splice m offset (offset + word.toBytes.length) word.toBytes
  | storeByte offset value => m.setIfInBounds offset (UInt8.ofNat (value % 256).toNat)
  | loadWord _ | read .. => m

theorem Access.size_store {a : Access} {m : Array UInt8} (h : a.reach ≤ m.size) :
    (a.store m).size = m.size := by
  cases a with
  | storeWord offset word =>
      exact size_splice (by rw [Word.toBytes, Bytes.BigEndian.length_encode]; exact h)
  | storeByte offset value => exact Array.size_setIfInBounds
  | loadWord | read => rfl

/-- An access writes its bytes and leaves all other positions alone. -/
theorem Access.byteOf_store {a : Access} {m : Array UInt8} (h : a.reach ≤ m.size)
    (position : Nat) :
    byteOf (a.store m) position = (a.writes? position).getD (byteOf m position) := by
  cases a with
  | storeWord offset word =>
      exact byteOf_splice (by rw [Word.toBytes, Bytes.BigEndian.length_encode]; exact h) position
  | storeByte offset value => exact byteOf_set h _ position
  | loadWord | read =>
      unfold writes? written
      split <;> rfl

/-! ## One access -/

namespace Bench

/-- The byte of the program at a counter. -/
def codeAt (b : Bench) (counter : Nat) : Value :=
  if counter < b.program.length then .nat (b.program.code.getD counter 0).toNat else .null

theorem index?_nat {size n : Nat} (h : n < size) : index? size n = some n := by
  have hnonneg : ¬ (n : Int) < 0 := by omega
  unfold index?
  simp only [if_neg hnonneg]
  rw [if_pos (by omega), Int.toNat_natCast]

theorem bound_nat {size n : Nat} (h : n ≤ size) : bound size n = n := by
  unfold bound
  rw [if_neg (by omega), Int.toNat_natCast, Nat.min_eq_right h]

theorem ordered_isLT_nat (m n : Nat) :
    ordered Ordering.isLT (.nat m) (.nat n) = .ok (decide (m < n)) := by
  show Except.ok (Ordering.isLT (compare (m : Int) n)) = Except.ok (decide (m < n))
  rw [Ordering.isLT_eq_beq_lt, Except.ok.injEq, Bool.eq_iff_iff, beq_iff_eq, Int.compare_eq_lt,
    decide_eq_true_eq, Int.ofNat_lt]

theorem ordered_isGT_int (m n : Int) :
    ordered Ordering.isGT (.int m) (.int n) = .ok (decide (n < m)) := by
  show Except.ok (Ordering.isGT (compare m n)) = Except.ok (decide (n < m))
  rw [Except.ok.injEq, Bool.eq_iff_iff, Ordering.isGT_iff_eq_gt, Int.compare_eq_gt,
    decide_eq_true_eq]

theorem whole_nat (n : Nat) : whole (.nat n) = .ok n := rfl

theorem byteAt_nat (b : Bench) (counter : Nat) :
    byteAt b.program (.nat counter) = .ok (b.codeAt counter) := by
  unfold byteAt codeAt
  rw [ordered_isLT_nat, whole_nat]
  by_cases hinside : counter < b.program.length
  · rw [if_pos hinside, decide_eq_true hinside]
    simp only [bind, Except.bind, if_true, index?_nat hinside]
    rfl
  · rw [if_neg hinside, decide_eq_false hinside]
    rfl

/-- Why an access that ends behind the limit fails.  The message has to name both numbers. -/
def overrun (b : Bench) (limit : Int) (counter reach : Nat) : Failure :=
  if Text.Numeral.isPrintable reach && Text.Numeral.isPrintable limit then
    let size := (Value.nat reach).display
    let limit := (Value.int limit).display
    .faulted ⟨FaultKind.memoryLimitExceeded.name,
      .text s!"memory access up to {size} exceeds {limit} bytes", .nat counter, b.codeAt counter⟩
  else .misuse .unprintable

theorem shown_int (n : Int) : shown (.int n) =
    if Text.Numeral.isPrintable n then .ok (Value.int n).display else .error .unprintable := by
  rw [shown, Value.isPrintable]

variable {b : Bench} {limit : Int} {s : State} {counter : Nat}

theorem run_fail (hcounter : s.counter = .nat counter) (kind : FaultKind) (message : String) :
    (b.fail kind message : Action α).run s =
      .error (.faulted ⟨kind.name, .text message, .nat counter, b.codeAt counter⟩) s := by
  show ((do
    let opcode ← attempt (byteAt b.program s.counter)
    throw (.faulted ⟨kind.name, .text message, s.counter, opcode⟩) : Action α)).run s = _
  rw [hcounter, byteAt_nat]
  rfl

theorem run_attempt_bind (a : α) (k : α → Action β) :
    (attempt (.ok a) >>= k).run s = (k a).run s := rfl

theorem run_get_bind (k : State → Action α) :
    ((get : Action State) >>= k).run s = (k s).run s := rfl

theorem run_touch (hlimit : b.memoryLimit = .int limit) (hcounter : s.counter = .nat counter)
    (reach : Nat) :
    (b.touch (.nat reach)).run s =
      if limit < reach then .error (b.overrun limit counter reach) s
      else if max s.memory.size b.room.bytes < Memory.roundUp reach then
        .error (.misuse (b.room.refusal (Memory.roundUp reach - s.memory.size))) s
      else .ok () { s with memory := (Memory.grow ⟨s.memory⟩ reach).bytes } := by
  unfold touch overrun
  rw [hlimit, Value.nat, ordered_isGT_int, shown_int, shown_int]
  -- the large numbers behind these tests must not be evaluated
  generalize Text.Numeral.isPrintable reach = writable
  generalize Text.Numeral.isPrintable limit = writable'
  by_cases hbeyond : limit < reach
  · rw [if_pos hbeyond, decide_eq_true hbeyond]
    cases writable with
    | false => rfl
    | true =>
        cases writable' with
        | false => rfl
        | true => exact run_fail hcounter _ _
  · rw [if_neg hbeyond, decide_eq_false hbeyond, run_attempt_bind, if_neg Bool.false_ne_true, whole,
      Value.integer?, run_attempt_bind, run_get_bind, Int.toNat_natCast]
    dsimp only
    split <;> rfl

/-- The bench and a run with the same limit and the same room stop at the same memory. -/
theorem exists_run_touch_iff {l : WholeLimits} (hlimit : b.memoryLimit = .int l.memory)
    (hroom : b.room = l.room) (hcounter : s.counter = .nat counter)
    (hsize : s.memory.size ≤ b.room.bytes) (reach : Nat) :
    (∃ s', (b.touch (.nat reach)).run s = .ok () s') ↔
      (reach : Int) ≤ l.toLimits.memoryAmount.floor := by
  rw [run_touch hlimit hcounter, WholeLimits.memoryAmount_toLimits, Amount.floor_whole,
    Nat.max_eq_right hsize, ← hroom]
  have hwords := Room.bytes_lt_roundUp_iff (r := b.room) (n := reach)
  split
  · exact iff_of_false (by rintro ⟨s', hs'⟩; cases hs') (by omega)
  · split
    · exact iff_of_false (by rintro ⟨s', hs'⟩; cases hs') (by omega)
    · exact iff_of_true ⟨_, rfl⟩ (by omega)

/-- What is done behind a growth is done on memory that covers the reach. -/
theorem run_touch_bind (hlimit : b.memoryLimit = .int limit) (hcounter : s.counter = .nat counter)
    (reach : Nat) {k : Unit → Action α} {f : (Nat → UInt8) → α}
    {g : Array UInt8 → Array UInt8}
    (hk : ∀ s' : State, reach ≤ s'.memory.size →
      (k ()).run s' = .ok (f (byteOf s'.memory)) { s' with memory := g s'.memory }) :
    (b.touch (.nat reach) >>= k).run s =
      if limit < reach then .error (b.overrun limit counter reach) s
      else if max s.memory.size b.room.bytes < Memory.roundUp reach then
        .error (.misuse (b.room.refusal (Memory.roundUp reach - s.memory.size))) s
      else .ok (f (byteOf s.memory))
        { s with memory := g (Memory.grow ⟨s.memory⟩ reach).bytes } := by
  rw [EStateM.run_bind, run_touch hlimit hcounter]
  by_cases hbeyond : limit < reach
  · rw [if_pos hbeyond, if_pos hbeyond]
  · rw [if_neg hbeyond, if_neg hbeyond]
    by_cases hroom : max s.memory.size b.room.bytes < Memory.roundUp reach
    · rw [if_pos hroom, if_pos hroom]
    · rw [if_neg hroom, if_neg hroom, ← byteOf_grow s.memory reach]
      exact hk { s with memory := (Memory.grow ⟨s.memory⟩ reach).bytes }
        (size_grow_ge s.memory reach)

theorem sum_nat (m n : Nat) : sum (.nat m) (.nat n) = .ok (.nat (m + n)) := rfl

theorem same_zero {n : Nat} (h : n ≠ 0) : (Value.nat n).same (.int 0) = false := by
  have horder : compare (n : Int) 0 ≠ .eq := by
    rw [Ne, Int.compare_eq_eq]
    omega
  show (some (some (compare (n : Int) 0)) == some (some Ordering.eq)) = false
  rw [beq_eq_false_iff_ne]
  simpa using horder

/-- A range that is not empty is read from memory that covers it. -/
theorem run_readMemory_bind (hlimit : b.memoryLimit = .int limit)
    (hcounter : s.counter = .nat counter) (offset : Nat) {size : Nat} (hsize : size ≠ 0)
    (k : List UInt8 → α) :
    ((do return k (← b.readMemory (.nat offset) (.nat size)).toList) : Action α).run s =
      if limit < (offset + size : Nat) then .error (b.overrun limit counter (offset + size)) s
      else if max s.memory.size b.room.bytes < Memory.roundUp (offset + size) then
        .error (.misuse (b.room.refusal (Memory.roundUp (offset + size) - s.memory.size))) s
      else .ok (k ((List.range size).map (fun i => byteOf s.memory (offset + i))))
        { s with memory := (Memory.grow ⟨s.memory⟩ (offset + size)).bytes } := by
  rw [readMemory, if_neg (by rw [same_zero hsize]; exact Bool.false_ne_true), sum_nat, bind_assoc,
    run_attempt_bind, bind_assoc]
  refine run_touch_bind hlimit hcounter (offset + size)
    (f := fun contents => k ((List.range size).map (fun i => contents (offset + i)))) (g := id)
    (fun s' hs' => ?_)
  rw [whole_nat, whole_nat, bind_assoc, run_attempt_bind, bind_assoc, run_attempt_bind, bind_assoc,
    run_get_bind]
  dsimp only
  rw [bound_nat (by omega), bound_nat hs', pure_bind, toList_extract hs']
  rfl

/-- What an access does, in full. -/
theorem run_perform (hlimit : b.memoryLimit = .int limit) (hcounter : s.counter = .nat counter)
    (a : Access) :
    (a.perform b).run s =
      if a.size = 0 then .ok (a.answer (byteOf s.memory)) s
      else if limit < a.reach then .error (b.overrun limit counter a.reach) s
      else if max s.memory.size b.room.bytes < Memory.roundUp a.reach then
        .error (.misuse (b.room.refusal (Memory.roundUp a.reach - s.memory.size))) s
      else .ok (a.answer (byteOf s.memory))
        { s with memory := a.store (Memory.grow ⟨s.memory⟩ a.reach).bytes } := by
  cases a with
  | storeWord offset word =>
      have hsum : sum (.nat offset) (.int 32) = .ok (.nat (offset + 32)) := rfl
      have hlength : word.toBytes.length = 32 := Bytes.BigEndian.length_encode 32 _
      have hsize : (Access.storeWord offset word).size ≠ 0 := Nat.succ_ne_zero 31
      rw [Access.perform, Bench.storeWord, hsum, bind_assoc, run_attempt_bind, bind_assoc,
        if_neg hsize]
      refine run_touch_bind hlimit hcounter (offset + 32) (f := fun _ => Reply.done)
        (g := (Access.storeWord offset word).store) (fun s' hs' => ?_)
      show EStateM.Result.ok Reply.done { s' with
        memory := splice s'.memory (bound s'.memory.size offset)
          (bound s'.memory.size (offset + 32 : Nat)) (Word.ofInt word.toNat).toBytes } = _
      rw [bound_nat (by omega), bound_nat hs', Word.ofInt_toNat, ← hlength]
      rfl
  | storeByte offset value =>
      have hsum : sum (.nat offset) (.int 1) = .ok (.nat (offset + 1)) := rfl
      have hsize : (Access.storeByte offset value).size ≠ 0 := Nat.succ_ne_zero 0
      rw [Access.perform, Bench.storeByte, hsum, bind_assoc, run_attempt_bind, bind_assoc,
        if_neg hsize]
      refine run_touch_bind hlimit hcounter (offset + 1) (f := fun _ => Reply.done)
        (g := (Access.storeByte offset value).store) (fun s' hs' => ?_)
      have hindex : index? s'.memory.size offset = some offset := index?_nat hs'
      rw [whole, Value.integer?, whole_nat, bind_assoc, run_attempt_bind, bind_assoc,
        run_attempt_bind, bind_assoc, run_get_bind, hindex]
      rfl
  | loadWord offset =>
      have hsize : (Access.loadWord offset).size ≠ 0 := Nat.succ_ne_zero 31
      have hword : ∀ contents : Nat → UInt8,
          (Word.ofBytes ((List.range 32).map (fun i => contents (offset + i)))).toNat =
            Bytes.BigEndian.decode ((List.range 32).map (fun i => contents (offset + i))) := by
        intro contents
        rw [← Word.numberOf_eq, numberOf, List.length_map, List.length_range, Nat.sub_self,
          List.drop_zero]
      have hread := run_readMemory_bind hlimit hcounter offset (by decide : (32 : Nat) ≠ 0)
        (fun bs => Reply.word (Word.ofBytes bs).toNat)
      rw [hword] at hread
      rw [Access.perform, Bench.loadWord, bind_assoc, if_neg hsize]
      simp only [pure_bind]
      exact hread
  | read offset size =>
      by_cases hsize : size = 0
      · subst hsize
        rfl
      · rw [if_neg (show (Access.read offset size).size ≠ 0 from hsize)]
        exact run_readMemory_bind hlimit hcounter offset hsize Reply.bytes

/-- How an access can end. -/
inductive Performed (b : Bench) (limit : Int) (counter : Nat) (s : State) (a : Access) :
    EStateM.Result Failure State Reply → Prop where
  | empty (hsize : a.size = 0) : Performed b limit counter s a (.ok (a.answer (byteOf s.memory)) s)
  | exceeds (hsize : 0 < a.size) (hbeyond : limit < a.reach) {e : Failure}
      (he : e = b.overrun limit counter a.reach) : Performed b limit counter s a (.error e s)
  | exhausts (hsize : 0 < a.size) (hwithin : a.reach ≤ limit)
      (hroom : max s.memory.size b.room.bytes < Memory.roundUp a.reach) {m : Misuse}
      (hm : m = b.room.refusal (Memory.roundUp a.reach - s.memory.size)) :
      Performed b limit counter s a (.error (.misuse m) s)
  | succeeds (hsize : 0 < a.size) (hwithin : a.reach ≤ limit)
      (hroom : Memory.roundUp a.reach ≤ max s.memory.size b.room.bytes) :
      Performed b limit counter s a (.ok (a.answer (byteOf s.memory))
        { s with memory := a.store (Memory.grow ⟨s.memory⟩ a.reach).bytes })

theorem performed (hlimit : b.memoryLimit = .int limit) (hcounter : s.counter = .nat counter)
    (a : Access) : Performed b limit counter s a ((a.perform b).run s) := by
  rw [run_perform hlimit hcounter]
  by_cases hsize : a.size = 0
  · rw [if_pos hsize]
    exact .empty hsize
  · rw [if_neg hsize]
    by_cases hbeyond : limit < a.reach
    · rw [if_pos hbeyond]
      exact .exceeds (by omega) hbeyond rfl
    · rw [if_neg hbeyond]
      by_cases hroom : max s.memory.size b.room.bytes < Memory.roundUp a.reach
      · rw [if_pos hroom]
        exact .exhausts (by omega) (by omega) hroom rfl
      · rw [if_neg hroom]
        exact .succeeds (by omega) (by omega) (Nat.not_lt.1 hroom)

namespace Performed

variable {a : Access} {r : Reply} {s' : State} {e : Failure}
  {outcome : EStateM.Result Failure State Reply}

theorem answer (h : Performed b limit counter s a (.ok r s')) : r = a.answer (byteOf s.memory) := by
  cases h <;> rfl

theorem counter_eq (h : Performed b limit counter s a (.ok r s')) : s'.counter = s.counter := by
  cases h <;> rfl

theorem contents (h : Performed b limit counter s a (.ok r s')) (position : Nat) :
    byteOf s'.memory position = (a.writes? position).getD (byteOf s.memory position) := by
  cases h with
  | empty hsize =>
      -- only a range of bytes to be read can be empty
      cases a with
      | storeWord | storeByte | loadWord => cases hsize
      | read =>
          unfold Access.writes? Access.written
          split <;> rfl
  | succeeds =>
      rw [Access.byteOf_store (size_grow_ge s.memory a.reach), byteOf_grow]

theorem size_memory (h : Performed b limit counter s a (.ok r s')) :
    s'.memory.size =
      if a.size = 0 then s.memory.size else max s.memory.size (32 * ((a.reach + 31) / 32)) := by
  cases h with
  | empty hsize => rw [if_pos hsize]
  | succeeds hsize =>
      have hgrow := Memory.size_grow ⟨s.memory⟩ a.reach
      rw [if_neg (by omega), Access.size_store (size_grow_ge s.memory a.reach), Nat.mul_comm 32]
      exact hgrow

theorem within (h : Performed b limit counter s a (.ok r s')) (hsize : 0 < a.size) :
    a.reach ≤ limit := by
  cases h with
  | empty hempty => omega
  | succeeds _ hwithin => exact hwithin

theorem state_of_error (h : Performed b limit counter s a (.error e s')) : s' = s := by
  cases h <;> rfl

/-- The limit is named if it can be, together with the end of the access. -/
theorem faulted_iff (h : Performed b limit counter s a outcome) :
    (∃ f s', outcome = .error (.faulted f) s' ∧ f.code = FaultKind.memoryLimitExceeded.name) ↔
      0 < a.size ∧ limit < a.reach ∧ Text.Numeral.isPrintable a.reach ∧
        Text.Numeral.isPrintable limit := by
  cases h with
  | empty hsize => simp [hsize]
  | exceeds hsize hbeyond he =>
      rw [overrun] at he
      split at he
      case isTrue hwritable =>
        rw [Bool.and_eq_true] at hwritable
        exact ⟨fun _ => ⟨hsize, hbeyond, hwritable⟩, fun _ => ⟨_, _, by rw [he], rfl⟩⟩
      case isFalse hlong =>
        rw [Bool.and_eq_true] at hlong
        constructor
        · rintro ⟨f, s', hf, -⟩
          rw [he] at hf
          cases hf
        · exact fun hwritable => absurd hwritable.2.2 hlong
  | exhausts hsize hwithin | succeeds hsize hwithin =>
      constructor
      · rintro ⟨f, s', hf, -⟩
        cases hf
      · rintro ⟨-, hbeyond, -⟩
        omega

theorem unnamed (h : Performed b limit counter s a outcome) (hsize : 0 < a.size)
    (hbeyond : limit < a.reach)
    (hlong : ¬ (Text.Numeral.isPrintable a.reach ∧ Text.Numeral.isPrintable limit)) :
    outcome = .error (.misuse .unprintable) s := by
  cases h with
  | empty hempty => omega
  | exceeds _ _ he => rw [he, overrun, if_neg (by rw [Bool.and_eq_true]; exact hlong)]
  | exhausts _ hwithin | succeeds _ hwithin => omega

theorem ok_iff (h : Performed b limit counter s a outcome) :
    (∃ r s', outcome = .ok r s') ↔
      a.size = 0 ∨ a.reach ≤ limit ∧ Memory.roundUp a.reach ≤ max s.memory.size b.room.bytes := by
  cases h with
  | empty hsize => exact ⟨fun _ => .inl hsize, fun _ => ⟨_, _, rfl⟩⟩
  | succeeds hsize hwithin hroom => exact ⟨fun _ => .inr ⟨hwithin, hroom⟩, fun _ => ⟨_, _, rfl⟩⟩
  | exceeds | exhausts =>
      constructor
      · rintro ⟨r, s', hr⟩
        cases hr
      · omega

theorem refused (h : Performed b limit counter s a outcome) (hsize : 0 < a.size)
    (hwithin : a.reach ≤ limit) (hroom : max s.memory.size b.room.bytes < Memory.roundUp a.reach) :
    outcome = .error (.misuse (b.room.refusal (Memory.roundUp a.reach - s.memory.size))) s := by
  cases h with
  | exhausts _ _ _ hm => rw [hm]
  | empty | exceeds | succeeds => omega

end Performed

/-- A word that has just been written is read back. -/
theorem loadWord_of_storeWord (hlimit : b.memoryLimit = .int limit)
    (hcounter : s.counter = .nat counter) {offset : Nat} {word : Word} {r : Reply} {s' : State}
    (h : ((Access.storeWord offset word).perform b).run s = .ok r s') :
    ∃ s'', ((Access.loadWord offset).perform b).run s' = .ok (.word word.toNat) s'' := by
  have hstore := performed hlimit hcounter (.storeWord offset word)
  rw [h] at hstore
  have hbytes : (List.range 32).map (fun i => byteOf s'.memory (offset + i)) = word.toBytes := by
    have hlength : word.toBytes.length = 32 := Bytes.BigEndian.length_encode 32 _
    apply List.ext_getElem?
    intro i
    rw [List.getElem?_map]
    by_cases hi : i < 32
    · have hwritten : (Access.storeWord offset word).writes? (offset + i) = word.toBytes[i]? := by
        show (if offset ≤ offset + i then word.toBytes[offset + i - offset]? else none) = _
        rw [if_pos (Nat.le_add_right offset i), Nat.add_sub_cancel_left]
      rw [List.getElem?_range hi, Option.map_some, hstore.contents, hwritten,
        List.getElem?_eq_getElem (by omega)]
      rfl
    · rw [List.getElem?_eq_none (by simp; omega), List.getElem?_eq_none (by omega)]
      rfl
  have hanswer : (Access.loadWord offset).answer (byteOf s'.memory) = .word word.toNat := by
    show Reply.word (Bytes.BigEndian.decode _) = _
    rw [hbytes, Word.toBytes, Bytes.BigEndian.decode_encode 32 _ word.isLt]
  have hwithin : ((Access.loadWord offset).reach : Int) ≤ limit :=
    hstore.within (Nat.succ_pos 31)
  -- the memory has grown that far already, whatever room there is
  have hroom :
      ¬ max s'.memory.size b.room.bytes < Memory.roundUp (Access.loadWord offset).reach := by
    have hsize : s'.memory.size = max s.memory.size (32 * ((offset + 32 + 31) / 32)) :=
      hstore.size_memory
    show ¬ max s'.memory.size b.room.bytes < (offset + 32 + 31) / 32 * 32
    omega
  have hload := performed hlimit (hstore.counter_eq.trans hcounter) (.loadWord offset)
  cases hrun : ((Access.loadWord offset).perform b).run s' with
  | ok r s'' =>
      rw [hrun] at hload
      exact ⟨s'', by rw [hload.answer, hanswer]⟩
  | error e s'' =>
      rw [hrun] at hload
      cases hload with
      | exceeds _ hbeyond => exact absurd hbeyond (Int.not_lt.2 hwithin)
      | exhausts _ _ hmore => exact absurd hmore hroom

end Bench

/-! ## Sequences of accesses -/

/-- The bench after some accesses. -/
structure Session where
  /-- The accesses that succeeded, the newest first. -/
  done : List Access
  /-- The state that they leave. -/
  state : Bench.State

namespace Session

/-- The session after one more access; a failing one is not recorded. -/
def next (b : Bench) (t : Session) (a : Access) : Session :=
  match (a.perform b).run t.state with
  | .ok _ s => ⟨a :: t.done, s⟩
  | .error _ s => ⟨t.done, s⟩

/-- The session after a sequence of accesses on empty memory. -/
def after (b : Bench) (counter : Nat) (stack : List Value) (accesses : List Access) : Session :=
  accesses.foldl (next b) ⟨[], { counter := .nat counter, stack := stack }⟩

/-- The memory holds what was written last. -/
structure Faithful (t : Session) (counter : Nat) : Prop where
  counter : t.state.counter = .nat counter
  contents : byteOf t.state.memory = latest t.done

variable {b : Bench} {limit : Int} {counter : Nat} {t : Session}

theorem faithful_start (counter : Nat) (stack : List Value) :
    Faithful ⟨[], { counter := .nat counter, stack := stack }⟩ counter :=
  ⟨rfl, rfl⟩

/-- An access that succeeds is recorded with what it wrote, and one that fails changes nothing. -/
theorem Faithful.next (hlimit : b.memoryLimit = .int limit) (h : t.Faithful counter) (a : Access) :
    (t.next b a).Faithful counter := by
  have hperformed := Bench.performed hlimit h.counter a
  unfold Session.next
  cases hrun : (a.perform b).run t.state with
  | ok r s' =>
      rw [hrun] at hperformed
      refine ⟨hperformed.counter_eq.trans h.counter, ?_⟩
      funext position
      rw [hperformed.contents, latest_cons, h.contents]
  | error e s' =>
      rw [hrun] at hperformed
      obtain rfl := hperformed.state_of_error
      exact ⟨h.counter, h.contents⟩

theorem faithful_after (hlimit : b.memoryLimit = .int limit) (counter : Nat) (stack : List Value)
    (accesses : List Access) : (after b counter stack accesses).Faithful counter := by
  have hfold : ∀ (accesses : List Access) (t : Session), t.Faithful counter →
      (accesses.foldl (next b) t).Faithful counter := by
    intro accesses
    induction accesses with
    | nil => exact fun _ h => h
    | cons a rest ih => exact fun t h => ih _ (h.next hlimit a)
  exact hfold accesses _ (faithful_start counter stack)

end Session

/-- What an access to memory that some accesses have left gives and does. -/
structure Serves (b : Bench) (limit : Int) (t : Session) (a : Access) : Prop where
  /-- Every position reads as the byte written there last. -/
  answer : ∀ r s', (a.perform b).run t.state = .ok r s' → r = a.answer (latest t.done)
  /-- A word is read back right behind its writing. -/
  readBack : ∀ offset word r s', a = .storeWord offset word →
    (a.perform b).run t.state = .ok r s' →
      ∃ s'', ((Access.loadWord offset).perform b).run s' = .ok (.word word.toNat) s''
  /-- Memory grows in whole words and covers what was accessed. -/
  growth : ∀ r s', (a.perform b).run t.state = .ok r s' → 0 < a.size →
    s'.memory.size = max t.state.memory.size (32 * ((a.reach + 31) / 32))
  /-- An empty access succeeds and changes nothing. -/
  empty : a.size = 0 → ∃ r, (a.perform b).run t.state = .ok r t.state
  /-- The limit is enforced, and named. -/
  limited : (∃ f s', (a.perform b).run t.state = .error (.faulted f) s' ∧
      f.code = FaultKind.memoryLimitExceeded.name) ↔
    0 < a.size ∧ limit < a.reach ∧ Text.Numeral.isPrintable a.reach ∧ Text.Numeral.isPrintable limit
  /-- If the limit or the end is too long to be named, the access fails without naming them. -/
  unnamed : 0 < a.size → limit < a.reach →
    ¬ (Text.Numeral.isPrintable a.reach ∧ Text.Numeral.isPrintable limit) →
      (a.perform b).run t.state = .error (.misuse .unprintable) t.state
  /-- Beyond the limit no access succeeds, and within it all do that need no growth or have room for
  it. -/
  succeeds : (∃ r s', (a.perform b).run t.state = .ok r s') ↔
    a.size = 0 ∨ a.reach ≤ limit ∧
      Memory.roundUp a.reach ≤ max t.state.memory.size b.room.bytes
  /-- An access within the limit that there is no room for is refused. -/
  refused : 0 < a.size → a.reach ≤ limit →
    max t.state.memory.size b.room.bytes < Memory.roundUp a.reach →
      (a.perform b).run t.state =
        .error (.misuse (b.room.refusal (Memory.roundUp a.reach - t.state.memory.size))) t.state
  /-- An access that fails changes nothing. -/
  failing : ∀ e s', (a.perform b).run t.state = .error e s' → s' = t.state

/-- After every sequence of accesses on empty memory, whatever the limit and the room, the memory is
an array of zeros with the successful writes made to it. -/
theorem memory_serves_history (b : Bench) {limit : Int} (hlimit : b.memoryLimit = .int limit)
    (counter : Nat) (stack : List Value) (accesses : List Access) (a : Access) :
    Serves b limit (Session.after b counter stack accesses) a := by
  obtain ⟨hcounter, hcontents⟩ := Session.faithful_after hlimit counter stack accesses
  generalize Session.after b counter stack accesses = t at *
  have hperformed := Bench.performed hlimit hcounter a
  have hof : ∀ {r s'}, (a.perform b).run t.state = .ok r s' →
      Bench.Performed b limit counter t.state a (.ok r s') := by
    intro r s' hrun
    rwa [hrun] at hperformed
  exact {
    answer := fun r s' hrun => by rw [(hof hrun).answer, hcontents]
    readBack := by
      rintro offset word r s' rfl hrun
      exact Bench.loadWord_of_storeWord hlimit hcounter hrun
    growth := fun r s' hrun hsize => by rw [(hof hrun).size_memory, if_neg (by omega)]
    empty := fun hsize => ⟨_, by rw [Bench.run_perform hlimit hcounter, if_pos hsize]⟩
    limited := hperformed.faulted_iff
    unnamed := hperformed.unnamed
    succeeds := hperformed.ok_iff
    refused := hperformed.refused
    failing := fun e s' hrun => by
      rw [hrun] at hperformed
      exact hperformed.state_of_error }

namespace Sample

/-- A bench with a limit of two words and a half. -/
def bench : Bench where
  program := Program.ofCode .immediate #[]
  memoryLimit := .int 80
  room := room

/-- A bench with the usual limits. -/
def usual : Bench where
  program := Program.ofCode .immediate #[]
  room := room

/-- A word so far away that its end has one digit too many. -/
def distant : Access :=
  .loadWord (10 ^ 4300 - 1)

/-- Writes that overlap, one of them beyond the limit, and a byte in the middle. -/
def overlapping : List Access :=
  [.storeWord 1 (.ofNat (2 ^ 256 - 1)), .storeWord 49 (.ofNat 7), .storeByte 5 (-2),
    .storeWord 20 (.ofNat 0x0102)]

end Sample

theorem memory_serves_history_overlapping :
    Sample.bench.memoryLimit = .int 80 ∧
      Serves Sample.bench 80 (Session.after Sample.bench 0 [] Sample.overlapping) (.read 4 3) ∧
      (Session.after Sample.bench 0 [] Sample.overlapping).done.length = 3 ∧
      (Access.read 4 3).answer (latest (Session.after Sample.bench 0 [] Sample.overlapping).done) =
        .bytes [255, 254, 255] := by
  refine ⟨rfl, memory_serves_history Sample.bench rfl 0 [] Sample.overlapping (.read 4 3), ?_⟩
  decide +kernel

/-- An access that ends too far away for its end to be written exceeds the limit, and no fault says
so. -/
theorem limit_exceeded_unnamed :
    0 < Sample.distant.size ∧ (2 : Int) ^ 20 < Sample.distant.reach ∧
      ¬ ∃ f s', (Sample.distant.perform Sample.usual).run {} = .error (.faulted f) s' := by
  have hbeyond : (2 : Int) ^ 20 < Sample.distant.reach := by decide +kernel
  have hlong : ¬ (Text.Numeral.isPrintable Sample.distant.reach ∧
      Text.Numeral.isPrintable (2 ^ 20)) := by
    decide +kernel
  have hperformed : Bench.Performed Sample.usual (2 ^ 20) 0 {} Sample.distant
      ((Sample.distant.perform Sample.usual).run {}) := Bench.performed rfl rfl _
  refine ⟨Nat.succ_pos 31, hbeyond, ?_⟩
  rw [hperformed.unnamed (Nat.succ_pos 31) hbeyond hlong]
  rintro ⟨f, s', hf⟩
  cases hf

end FlowCheck.Probe
