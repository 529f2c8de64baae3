import FlowCheck.Proofs.Boundaries

/-!
# The linear sweep

The survey of a program goes from instruction to instruction with the decoder, which relies on the
marks of the scan.  `sweep` reads the bytes once from the left without looking at marks, and the two
agree (`listing_eq_sweep`).  A statement about listings is shown along the sweep, one instruction at
a time (`sweep_cons`), or at the boundaries (`listing_eq_map`).
-/

namespace FlowCheck.Program

/-- The bytes of an immediate in front of the bytes behind it, filled up with zeros. -/
def padded (width : Nat) (bytes : List UInt8) : List UInt8 :=
  bytes.take width ++ List.replicate (width - bytes.length) 0

theorem length_padded (width : Nat) (bytes : List UInt8) : (padded width bytes).length = width := by
  rw [padded, List.length_append, List.length_take, List.length_replicate]
  omega

theorem padded_append {width : Nat} {front : List UInt8} (h : front.length = width)
    (back : List UInt8) : padded width (front ++ back) = front := by
  rw [padded, List.take_left' h, List.length_append,
    Nat.sub_eq_zero_of_le (by omega : width ≤ front.length + back.length)]
  exact List.append_nil front

/-- The instruction of an opcode at an offset, in front of the bytes that follow it. -/
def instructionBefore (mode : OperandMode) (offset : Nat) (op : Opcode) (bytes : List UInt8) :
    Instruction :=
  let d := mode.describe op
  { pc := offset
    descriptor := d
    immediate :=
      if d.width = 0 then none else some (Bytes.BigEndian.decode (padded d.width bytes)) }

/-- The instructions of bytes from an offset on, when so many immediate bytes are still to pass. -/
def sweep (mode : OperandMode) :
    (offset skip : Nat) → List UInt8 → List (Nat × Option Instruction)
  | _, _, [] => []
  | offset, skip + 1, _ :: rest => sweep mode (offset + 1) skip rest
  | offset, 0, b :: rest =>
      (offset, (Opcode.ofByte? b).map (fun op => instructionBefore mode offset op rest)) ::
        sweep mode (offset + 1) (Mark.skipAfter mode (Opcode.ofByte? b)) rest

theorem sweep_skip (mode : OperandMode) (offset skip : Nat) (bytes : List UInt8) :
    sweep mode offset skip bytes = sweep mode (offset + skip) 0 (bytes.drop skip) := by
  induction bytes generalizing offset skip with
  | nil => simp [sweep]
  | cons b rest ih =>
      cases skip with
      | zero => rfl
      | succ skip =>
          rw [sweep, ih, List.drop_succ_cons]
          congr 1
          omega

/-- A sweep from an opcode on lists its instruction and goes on behind its immediate. -/
theorem sweep_cons {mode : OperandMode} {offset : Nat} {b : UInt8} {op : Opcode}
    (hop : Opcode.ofByte? b = some op) (rest : List UInt8) :
    sweep mode offset 0 (b :: rest) =
      (offset, some (instructionBefore mode offset op rest)) ::
        sweep mode (offset + 1 + (mode.describe op).width) 0
          (rest.drop (mode.describe op).width) := by
  rw [sweep, hop, sweep_skip]
  rfl

/-! ## The listing -/

variable {p : Program}

/-- The positions of the boundaries among marks, from an offset on. -/
def found : Nat → List Mark → List Nat
  | _, [] => []
  | offset, m :: rest =>
      if m != .immediate then offset :: found (offset + 1) rest else found (offset + 1) rest

theorem filter_range_eq_found (marks : List Mark) (offset : Nat) (test : Nat → Bool)
    (htest : ∀ j (h : j < marks.length), test (offset + j) = (marks[j] != .immediate)) :
    (List.range' offset marks.length).filter test = found offset marks := by
  induction marks generalizing offset with
  | nil => rfl
  | cons m rest ih =>
      have hhead := htest 0 (by simp)
      have htail := ih (offset + 1) (fun j hj => by
        have hnext := htest (j + 1) (by simpa using hj)
        rw [show offset + (j + 1) = offset + 1 + j by omega] at hnext
        simpa using hnext)
      rw [List.length_cons, List.range'_succ, List.filter_cons, htail, found]
      rw [Nat.add_zero, List.getElem_cons_zero] at hhead
      rw [hhead]

theorem boundaries_eq_found (p : Program) :
    p.boundaries = found 0 (Mark.marksFrom p.mode 0 p.code.toList) := by
  rw [← marks_toList, boundaries, positions, List.range_eq_range', ← Array.length_toList]
  apply filter_range_eq_found
  intro j hj
  rw [Nat.zero_add, ← Array.getElem?_toList, List.getElem?_eq_getElem hj]
  rfl

theorem mem_boundaries {pc : Nat} : pc ∈ p.boundaries ↔ p.isBoundary pc = true := by
  rw [boundaries, positions, List.mem_filter, List.mem_range, isBoundary_iff, Option.any_eq_true]
  constructor
  · rintro ⟨-, m, hm, hne⟩
    exact ⟨m, hm, by simpa using hne⟩
  · rintro ⟨m, hm, hne⟩
    exact ⟨(Array.getElem?_eq_some_iff.1 hm).1, m, hm, by simpa using hne⟩

/-- The bytes at a position are those of the suffix that starts there. -/
theorem bytesAt_eq_padded (p : Program) (start width : Nat) :
    p.bytesAt start width = padded width (p.code.toList.drop start) := by
  apply List.ext_getElem
  · rw [length_padded, bytesAt, List.length_map, List.length_range]
  · intro j _ hj
    rw [length_padded] at hj
    have hlen : (p.code.toList.drop start).length = p.code.size - start := by
      rw [List.length_drop, Array.length_toList]
    simp only [bytesAt, padded, List.getElem_map, List.getElem_range, Array.getD_eq_getD_getElem?]
    rcases Nat.lt_or_ge (start + j) p.code.size with hlt | hge
    · rw [Array.getElem?_eq_getElem hlt, List.getElem_append_left, List.getElem_take,
        List.getElem_drop, Array.getElem_toList]
      · rfl
      · rw [List.length_take, hlen]
        omega
    · rw [Array.getElem?_eq_none hge, List.getElem_append_right, List.getElem_replicate]
      · rfl
      · rw [List.length_take, hlen]
        omega

/-- The decoder reads the immediate of an instruction from the bytes that follow it. -/
theorem instructionOf_eq (p : Program) (pc : Nat) (op : Opcode) :
    p.instructionOf pc op = instructionBefore p.mode pc op (p.code.toList.drop (pc + 1)) := by
  simp only [instructionOf, bytesAt_eq_padded]
  rfl

theorem drop_of_code {pc : Nat} {b : UInt8} (hb : p.code[pc]? = some b) :
    p.code.toList.drop pc = b :: p.code.toList.drop (pc + 1) := by
  rw [← Array.getElem?_toList] at hb
  obtain ⟨hlt, rfl⟩ := List.getElem?_eq_some_iff.1 hb
  exact List.drop_eq_getElem_cons hlt

/-- At a boundary the decoder reads what the sweep reads. -/
theorem decode_of_drop {pc : Nat} {b : UInt8} {rest : List UInt8} (hbound : p.isBoundary pc = true)
    (hdrop : p.code.toList.drop pc = b :: rest) :
    (p.decode pc).toOption =
      (Opcode.ofByte? b).map (fun op => instructionBefore p.mode pc op rest) := by
  have hb := code_of_drop hdrop
  have hrest : p.code.toList.drop (pc + 1) = rest := by
    rw [← List.drop_drop, hdrop]
    rfl
  simp only [decode, hb, hbound, if_true]
  cases Opcode.ofByte? b with
  | none => rfl
  | some op =>
      simp only [Except.toOption, instructionOf_eq, hrest]
      rfl

theorem map_found_eq_sweep (p : Program) (bytes : List UInt8) (offset skip : Nat)
    (hdrop : p.code.toList.drop offset = bytes)
    (hbound : ∀ pc ∈ found offset (Mark.marksFrom p.mode skip bytes), p.isBoundary pc = true) :
    (found offset (Mark.marksFrom p.mode skip bytes)).map
        (fun pc => (pc, (p.decode pc).toOption)) = sweep p.mode offset skip bytes := by
  induction bytes generalizing offset skip with
  | nil => rfl
  | cons b rest ih =>
      have hrest : p.code.toList.drop (offset + 1) = rest := by
        rw [← List.drop_drop, hdrop]
        rfl
      cases skip with
      | succ skip => exact ih (offset + 1) skip hrest hbound
      | zero =>
          have hmark : (Mark.ofOpcode? (Opcode.ofByte? b) != .immediate) = true := by
            simpa using Mark.ofOpcode?_ne_immediate (Opcode.ofByte? b)
          rw [Mark.marksFrom, found, if_pos hmark] at hbound ⊢
          have hhere := hbound offset (List.mem_cons_self ..)
          rw [List.map_cons, decode_of_drop hhere hdrop, sweep,
            ih (offset + 1) _ hrest (fun pc hpc => hbound pc (List.mem_cons_of_mem _ hpc))]

/-- From where a counter can stand, the survey lists what the sweep of the remaining bytes lists,
and is not refused. -/
theorem surveyFrom_eq {fuel pc : Nat} (found : Array (Nat × Option Instruction))
    (hstands : p.Stands pc) (hfuel : p.length ≤ pc + fuel) :
    p.surveyFrom fuel pc found =
      { found := found ++ (sweep p.mode pc 0 (p.code.toList.drop pc)).toArray } := by
  -- behind the code nothing is left to list
  have hend : ∀ {pc} (found : Array (Nat × Option Instruction)), p.length ≤ pc →
      ({ found } : Survey) =
        { found := found ++ (sweep p.mode pc 0 (p.code.toList.drop pc)).toArray } := by
    intro pc found hpc
    rw [List.drop_eq_nil_of_le (by simpa [length] using hpc)]
    simp [sweep]
  induction fuel generalizing pc found with
  | zero => exact hend found hfuel
  | succ fuel ih =>
      rw [surveyFrom]
      cases hb : p.code[pc]? with
      | none => exact hend found (Array.getElem?_eq_none_iff.1 hb)
      | some b =>
          have hlt : pc < p.length := (Array.getElem?_eq_some_iff.1 hb).1
          have hbound : p.isBoundary pc = true := hstands.resolve_right (Nat.not_le.2 hlt)
          cases hop : Opcode.ofByte? b with
          | none =>
              have hstands' : p.Stands (pc + 1) := by
                simpa [hop, Mark.skipAfter] using stands_behind hbound hb
              simp only [hop]
              rw [ih (found.push (pc, none)) hstands' (by omega), drop_of_code hb, sweep, hop]
              simp [Mark.skipAfter]
          | some op =>
              have hdecode := (decode_eq_ok_iff hlt).2 ⟨b, op, hb, hbound, hop, rfl⟩
              have hstands' := stands_next hlt hdecode
              have hfuel' : p.length ≤ (p.instructionOf pc op).next + fuel := by
                rw [Instruction.next, decode_pc hdecode]
                omega
              simp only [hop, hdecode]
              rw [ih (found.push (pc, some (p.instructionOf pc op))) hstands' hfuel',
                drop_of_code hb, sweep_cons hop, List.drop_drop, instructionOf_eq]
              simp [Instruction.next, instructionBefore]

theorem survey_eq_sweep (p : Program) :
    p.survey = { found := (sweep p.mode 0 0 p.code.toList).toArray } := by
  rw [survey, surveyFrom_eq #[] p.stands_zero (by omega), List.drop_zero, Array.empty_append]

/-- The listing of a program is the sweep of its code. -/
theorem listing_eq_sweep (p : Program) : p.listing = sweep p.mode 0 0 p.code.toList := by
  rw [listing, survey_eq_sweep]

/-- The listing holds the boundaries that the scan has marked, each with what is decoded there. -/
theorem listing_eq_map (p : Program) :
    p.listing = p.boundaries.map (fun pc => (pc, (p.decode pc).toOption)) := by
  have hbound : ∀ pc ∈ p.boundaries, p.isBoundary pc = true := fun pc hpc => mem_boundaries.1 hpc
  rw [boundaries_eq_found] at hbound
  rw [listing_eq_sweep, boundaries_eq_found]
  exact (map_found_eq_sweep p p.code.toList 0 0 rfl hbound).symm

end FlowCheck.Program
