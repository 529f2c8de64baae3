import FlowCheck.Program

/-!
# Instruction boundaries

The scan that marks the code is a left fold over bytes.  `Mark.marksFrom` is the same scan by
recursion on the bytes still to read, and every fact about boundaries is read off its suffixes: from
a boundary on, the marks are those of a scan that starts there.

The statement used most is `Program.decode_next_injective`: no two instructions of a program end at
the same place.  A counter that is no landing marker is therefore reached from one place only.
-/

namespace FlowCheck

theorem Opcode.toByte_of_ofByte? {b : UInt8} {op : Opcode} (h : ofByte? b = some op) :
    op.toByte = b := by
  have hall : ∀ n : Fin 256, ∀ op ∈ ofByte? (UInt8.ofNat n.val), op.toByte = UInt8.ofNat n.val := by
    decide +kernel
  have hb : UInt8.ofNat b.toNat = b := UInt8.ofNat_toNat
  have hbyte := hall ⟨b.toNat, b.toNat_lt⟩ op
  rw [hb] at hbyte
  exact hbyte h

theorem OperandMode.opcode_describe (mode : OperandMode) (op : Opcode) :
    (mode.describe op).opcode = op := by
  cases op <;> cases mode <;> rfl

namespace Mark

/-- The marks of the bytes still to read, when so many immediate bytes are still to pass. -/
def marksFrom (mode : OperandMode) : Nat → List UInt8 → List Mark
  | _, [] => []
  | skip + 1, _ :: rest => immediate :: marksFrom mode skip rest
  | 0, b :: rest =>
      ofOpcode? (Opcode.ofByte? b) ::
        marksFrom mode (skipAfter mode (Opcode.ofByte? b)) rest

/-- The fold appends the marks of the recursive scan to those it has. -/
theorem foldl_step_toList (mode : OperandMode) (bytes : List UInt8) (skip : Nat)
    (marks : Array Mark) :
    (bytes.foldl (step mode) (skip, marks)).2.toList =
      marks.toList ++ marksFrom mode skip bytes := by
  induction bytes generalizing skip marks with
  | nil => simp [marksFrom]
  | cons b rest ih =>
      rw [List.foldl_cons]
      -- one byte of the fold, which is one cell of the recursive scan
      cases skip with
      | zero =>
          rw [show step mode (0, marks) b =
            (skipAfter mode (Opcode.ofByte? b), marks.push (ofOpcode? (Opcode.ofByte? b))) from rfl]
          rw [ih]
          simp [marksFrom]
      | succ skip =>
          rw [show step mode (skip + 1, marks) b = (skip, marks.push immediate) from rfl]
          rw [ih]
          simp [marksFrom]

theorem scan_toList (mode : OperandMode) (code : Array UInt8) :
    (scan mode code).toList = marksFrom mode 0 code.toList := by
  rw [scan, ← Array.foldl_toList, foldl_step_toList]
  simp

theorem length_marksFrom (mode : OperandMode) (skip : Nat) (bytes : List UInt8) :
    (marksFrom mode skip bytes).length = bytes.length := by
  induction bytes generalizing skip with
  | nil => cases skip <;> rfl
  | cons b rest ih => cases skip <;> simp [marksFrom, ih]

/-- From a boundary on, the scan is one that starts there. -/
theorem drop_marksFrom {mode : OperandMode} {bytes : List UInt8} {skip pc : Nat} {m : Mark}
    (hm : (marksFrom mode skip bytes)[pc]? = some m) (hne : m ≠ immediate) :
    (marksFrom mode skip bytes).drop pc = marksFrom mode 0 (bytes.drop pc) := by
  induction bytes generalizing skip pc with
  | nil => cases skip <;> simp [marksFrom] at hm
  | cons b rest ih =>
      cases skip with
      | zero =>
          cases pc with
          | zero => rfl
          | succ pc =>
              simp only [marksFrom, List.getElem?_cons_succ] at hm
              simpa [marksFrom] using ih hm
      | succ skip =>
          cases pc with
          | zero =>
              simp only [marksFrom, List.getElem?_cons_zero, Option.some.injEq] at hm
              exact absurd hm.symm hne
          | succ pc =>
              simp only [marksFrom, List.getElem?_cons_succ] at hm
              simpa [marksFrom] using ih hm

/-- The immediate bytes still to pass are marked as immediate data. -/
theorem marksFrom_immediate {mode : OperandMode} {bytes : List UInt8} {skip j : Nat} {m : Mark}
    (hj : j < skip) (hm : (marksFrom mode skip bytes)[j]? = some m) : m = immediate := by
  induction bytes generalizing skip j with
  | nil => cases skip <;> simp [marksFrom] at hm
  | cons b rest ih =>
      cases skip with
      | zero => omega
      | succ skip =>
          cases j with
          | zero =>
              simp only [marksFrom, List.getElem?_cons_zero, Option.some.injEq] at hm
              exact hm.symm
          | succ j =>
              simp only [marksFrom, List.getElem?_cons_succ] at hm
              exact ih (by omega) hm

theorem ofOpcode?_ne_immediate (op : Option Opcode) : ofOpcode? op ≠ immediate := by
  cases op with
  | none => simp [ofOpcode?]
  | some op => cases op <;> simp [ofOpcode?]

/-- Behind the immediate bytes still to pass stands a boundary. -/
theorem marksFrom_skipped {mode : OperandMode} {bytes : List UInt8} {skip : Nat} {m : Mark}
    (hm : (marksFrom mode skip bytes)[skip]? = some m) : m ≠ immediate := by
  induction bytes generalizing skip with
  | nil => cases skip <;> simp [marksFrom] at hm
  | cons b rest ih =>
      cases skip with
      | zero =>
          simp only [marksFrom, List.getElem?_cons_zero, Option.some.injEq] at hm
          rw [← hm]
          exact ofOpcode?_ne_immediate _
      | succ skip =>
          simp only [marksFrom, List.getElem?_cons_succ] at hm
          exact ih hm

end Mark

namespace Program

variable {p : Program} {pc : Nat} {i : Instruction}

theorem marks_toList (p : Program) : p.marks.toList = Mark.marksFrom p.mode 0 p.code.toList := by
  rw [p.marks_eq, Mark.scan_toList]

theorem size_marks (p : Program) : p.marks.size = p.length := by
  rw [← Array.length_toList, marks_toList, Mark.length_marksFrom, Array.length_toList, length]

theorem code_of_drop {b : UInt8} {rest : List UInt8} (h : p.code.toList.drop pc = b :: rest) :
    p.code[pc]? = some b := by
  have h0 : (p.code.toList.drop pc)[0]? = some b := by rw [h]; rfl
  rw [List.getElem?_drop, Array.getElem?_toList] at h0
  simpa using h0

/-- Every mark other than immediate data is that of the byte found there, and the marks behind it are
those of a scan that passes the immediate of that byte. -/
theorem marks_behind {m : Mark} (hm : p.marks[pc]? = some m) (hne : m ≠ .immediate) :
    ∃ b, p.code[pc]? = some b ∧ m = Mark.ofOpcode? (Opcode.ofByte? b) ∧
      ∃ rest, ∀ j, p.marks[pc + 1 + j]? =
        (Mark.marksFrom p.mode (Mark.skipAfter p.mode (Opcode.ofByte? b)) rest)[j]? := by
  have hlist : (Mark.marksFrom p.mode 0 p.code.toList)[pc]? = some m := by
    rw [← marks_toList, Array.getElem?_toList, hm]
  -- read the scan from the boundary on, where its first byte is the one at `pc`
  have hdrop := Mark.drop_marksFrom hlist hne
  have hlt : pc < p.code.toList.length := by
    have hget := (List.getElem?_eq_some_iff.1 hlist).1
    rwa [Mark.length_marksFrom] at hget
  obtain ⟨b, rest, hrest⟩ : ∃ b rest, p.code.toList.drop pc = b :: rest :=
    ⟨_, _, List.drop_eq_getElem_cons hlt⟩
  have hb := code_of_drop hrest
  rw [hrest, Mark.marksFrom] at hdrop
  refine ⟨b, hb, ?_, rest, ?_⟩
  · have h0 : ((Mark.marksFrom p.mode 0 p.code.toList).drop pc)[0]? = some m := by
      rw [List.getElem?_drop]
      simpa using hlist
    rw [hdrop] at h0
    simpa using h0.symm
  · intro j
    have hat : ((Mark.marksFrom p.mode 0 p.code.toList).drop pc)[j + 1]? = p.marks[pc + 1 + j]? := by
      rw [List.getElem?_drop, ← marks_toList, Array.getElem?_toList]
      congr 1
      omega
    rw [← hat, hdrop, List.getElem?_cons_succ]

theorem isBoundary_iff : p.isBoundary pc = true ↔ ∃ m, p.marks[pc]? = some m ∧ m ≠ .immediate := by
  unfold isBoundary
  cases p.marks[pc]? with
  | none => simp
  | some m => simp

/-! ## Decoding -/

/-- What it means that an instruction is decoded inside the code. -/
theorem decode_eq_ok_iff (hpc : pc < p.length) :
    p.decode pc = .ok i ↔
      ∃ b op, p.code[pc]? = some b ∧ p.isBoundary pc = true ∧ Opcode.ofByte? b = some op ∧
        i = p.instructionOf pc op := by
  obtain ⟨b, hb⟩ : ∃ b, p.code[pc]? = some b := ⟨_, Array.getElem?_eq_getElem hpc⟩
  simp only [decode, hb]
  by_cases hbound : p.isBoundary pc = true
  · cases hop : Opcode.ofByte? b with
    | none => simp [hbound, hop]
    | some op => simp [hbound, hop, eq_comm]
  · simp [hbound]

theorem decode_of_length_le (hpc : p.length ≤ pc) : p.decode pc = .ok (endOfCode pc) := by
  have hb : p.code[pc]? = none := Array.getElem?_eq_none hpc
  simp [decode, hb]

/-- A decoded instruction stands where it was decoded. -/
theorem decode_pc (h : p.decode pc = .ok i) : i.pc = pc := by
  by_cases hpc : pc < p.length
  · obtain ⟨b, op, -, -, -, rfl⟩ := (decode_eq_ok_iff hpc).1 h
    rfl
  · rw [decode_of_length_le (by omega)] at h
    obtain rfl : endOfCode pc = i := by simpa using h
    rfl

/-- The implicit stop is exactly what is decoded behind the code. -/
theorem decode_implicit_iff (h : p.decode pc = .ok i) : i.implicit = true ↔ p.length ≤ pc := by
  by_cases hpc : pc < p.length
  · obtain ⟨b, op, -, -, -, rfl⟩ := (decode_eq_ok_iff hpc).1 h
    simp [instructionOf, hpc]
  · rw [decode_of_length_le (by omega)] at h
    obtain rfl : endOfCode pc = i := by simpa using h
    simp only [endOfCode, true_iff]
    omega

/-- Every refusal of the decoder is that of an invalid instruction, and names its counter. -/
theorem decode_error_located {r : Rejection} (h : p.decode pc = .error r) :
    r.cause.reason = .invalidInstruction ∧ r.pc = some (pc : Int) := by
  unfold decode at h
  split at h
  · cases h
  · split at h
    · split at h
      · cases h
      · cases h
        exact ⟨rfl, rfl⟩
    · cases h
      exact ⟨rfl, rfl⟩

/-- The row of a decoded instruction is that of its opcode under the mode of the program. -/
theorem decode_descriptor (hpc : pc < p.length) (h : p.decode pc = .ok i) :
    i.descriptor = p.mode.describe i.opcode := by
  obtain ⟨b, op, -, -, -, rfl⟩ := (decode_eq_ok_iff hpc).1 h
  show p.mode.describe op = p.mode.describe (p.mode.describe op).opcode
  rw [OperandMode.opcode_describe]

/-- A decoded instruction has an immediate exactly if its row gives it a width. -/
theorem decode_immediate (hpc : pc < p.length) (h : p.decode pc = .ok i) :
    i.immediate = if i.descriptor.width = 0 then none
      else some (Bytes.BigEndian.decode (p.bytesAt (pc + 1) i.descriptor.width)) := by
  obtain ⟨b, op, -, -, -, rfl⟩ := (decode_eq_ok_iff hpc).1 h
  rfl

/-- Between an instruction and the place behind it no other instruction starts. -/
theorem next_le_of_lt {q : Nat} {j : Instruction} (hq : q < p.length) (hdq : p.decode q = .ok j)
    (hpc : pc < p.length) (hd : p.decode pc = .ok i) (hlt : pc < q) : i.next ≤ q := by
  obtain ⟨b, op, hb, hbound, hop, rfl⟩ := (decode_eq_ok_iff hpc).1 hd
  obtain ⟨-, -, -, hboundq, -, -⟩ := (decode_eq_ok_iff hq).1 hdq
  obtain ⟨m, hm, hne⟩ := isBoundary_iff.1 hbound
  obtain ⟨m', hm', hne'⟩ := isBoundary_iff.1 hboundq
  obtain ⟨b', hb', -, rest, hbehind⟩ := marks_behind hm hne
  obtain rfl : b = b' := by simpa [hb] using hb'
  have hwidth : Mark.skipAfter p.mode (Opcode.ofByte? b) = (p.mode.describe op).width := by
    rw [hop]
    rfl
  have hnext : (p.instructionOf pc op).next = pc + 1 + (p.mode.describe op).width := rfl
  rcases Nat.lt_or_ge q (p.instructionOf pc op).next with hgt | hge
  · -- inside the immediate there is no boundary
    have hj : q - (pc + 1) < Mark.skipAfter p.mode (Opcode.ofByte? b) := by omega
    rw [show q = pc + 1 + (q - (pc + 1)) by omega, hbehind] at hm'
    exact absurd (Mark.marksFrom_immediate hj hm') hne'
  · exact hge

/-- No two instructions of a program end at the same place. -/
theorem decode_next_injective {q : Nat} {j : Instruction} (hpc : pc < p.length)
    (hd : p.decode pc = .ok i) (hq : q < p.length) (hdq : p.decode q = .ok j)
    (hnext : i.next = j.next) : pc = q := by
  have hi : pc < i.next := by
    rw [Instruction.next, decode_pc hd]
    omega
  have hj : q < j.next := by
    rw [Instruction.next, decode_pc hdq]
    omega
  -- the earlier of two instructions ends before the later one starts, so it ends earlier
  rcases Nat.lt_trichotomy pc q with hlt | heq | hgt
  · have := next_le_of_lt hq hdq hpc hd hlt
    omega
  · exact heq
  · have := next_le_of_lt hpc hd hq hdq hgt
    omega

/-! ## Landing markers -/

theorem ofOpcode?_eq_jumpdest {op : Option Opcode} (h : Mark.ofOpcode? op = .jumpdest) :
    op = some .jumpdest := by
  cases op with
  | none => simp [Mark.ofOpcode?] at h
  | some op => cases op <;> simp [Mark.ofOpcode?] at h ⊢

theorem ofOpcode?_eq_entry {op : Option Opcode} (h : Mark.ofOpcode? op = .entry) :
    op = some .beginsub := by
  cases op with
  | none => simp [Mark.ofOpcode?] at h
  | some op => cases op <;> simp [Mark.ofOpcode?] at h ⊢

/-- The opcode that a transfer to a marker lands on. -/
def markerOpcode : Marker → Opcode
  | .jumpdest => .jumpdest
  | .entry => .beginsub

/-- A landing marker lies inside the code and is decoded as the instruction it stands for. -/
theorem decode_of_hasMarker {marker : Marker} (h : p.hasMarker marker pc = true) :
    pc < p.length ∧ p.decode pc = .ok (p.instructionOf pc (markerOpcode marker)) := by
  obtain ⟨m, hm, hmark⟩ : ∃ m, p.marks[pc]? = some m ∧
      m = (match marker with | .jumpdest => Mark.jumpdest | .entry => Mark.entry) := by
    cases marker with
    | jumpdest => exact ⟨.jumpdest, by simpa [hasMarker, isJumpdest] using h, rfl⟩
    | entry => exact ⟨.entry, by simpa [hasMarker, isEntry] using h, rfl⟩
  -- a landing marker is no immediate data, so the scan names the byte that it stands for
  have hne : m ≠ .immediate := by cases marker <;> simp [hmark]
  have hpc : pc < p.length := by
    rw [← size_marks]
    exact (Array.getElem?_eq_some_iff.1 hm).1
  obtain ⟨b, hb, hmb, -⟩ := marks_behind hm hne
  refine ⟨hpc, (decode_eq_ok_iff hpc).2 ⟨b, markerOpcode marker, hb, ?_, ?_, rfl⟩⟩
  · exact isBoundary_iff.2 ⟨m, hm, hne⟩
  · cases marker with
    | jumpdest => exact ofOpcode?_eq_jumpdest (hmb.symm.trans hmark)
    | entry => exact ofOpcode?_eq_entry (hmb.symm.trans hmark)

/-! ## Where a counter can stand -/

/-- A counter at an instruction boundary or behind the code. -/
def Stands (p : Program) (pc : Nat) : Prop :=
  p.isBoundary pc = true ∨ p.length ≤ pc

theorem stands_of_mark (h : ∀ m, p.marks[pc]? = some m → m ≠ .immediate) : p.Stands pc := by
  rcases Nat.lt_or_ge pc p.length with hlt | hge
  · have hm : pc < p.marks.size := by rwa [size_marks]
    exact Or.inl (isBoundary_iff.2 ⟨_, Array.getElem?_eq_getElem hm,
      h _ (Array.getElem?_eq_getElem hm)⟩)
  · exact Or.inr hge

/-- Code starts with an instruction. -/
theorem stands_zero (p : Program) : p.Stands 0 := by
  refine stands_of_mark fun m hm => ?_
  rw [← Array.getElem?_toList, marks_toList] at hm
  exact Mark.marksFrom_skipped hm

/-- Behind a boundary and the immediate of its byte, even a truncated one, stands the next one. -/
theorem stands_behind {b : UInt8} (hbound : p.isBoundary pc = true) (hb : p.code[pc]? = some b) :
    p.Stands (pc + 1 + Mark.skipAfter p.mode (Opcode.ofByte? b)) := by
  obtain ⟨m, hm, hne⟩ := isBoundary_iff.1 hbound
  obtain ⟨b', hb', -, rest, hbehind⟩ := marks_behind hm hne
  obtain rfl : b = b' := by simpa [hb] using hb'
  refine stands_of_mark fun m' hm' => ?_
  rw [hbehind] at hm'
  exact Mark.marksFrom_skipped hm'

theorem stands_next (hpc : pc < p.length) (h : p.decode pc = .ok i) : p.Stands i.next := by
  obtain ⟨b, op, hb, hbound, hop, rfl⟩ := (decode_eq_ok_iff hpc).1 h
  have hstands := stands_behind hbound hb
  rw [hop] at hstands
  exact hstands

theorem stands_of_hasMarker {marker : Marker} (h : p.hasMarker marker pc = true) :
    p.Stands pc := by
  obtain ⟨hpc, hdecode⟩ := decode_of_hasMarker h
  obtain ⟨-, -, -, hbound, -, -⟩ := (decode_eq_ok_iff hpc).1 hdecode
  exact Or.inl hbound

/-- Where a counter can stand, decoding fails only at a byte that is no opcode. -/
theorem decode_error_of_stands {r : Rejection} (hs : p.Stands pc) (h : p.decode pc = .error r) :
    ∃ b, p.isBoundary pc = true ∧ p.code[pc]? = some b ∧
      r = ⟨.unrecognised, some pc, some (.byte b.toNat)⟩ := by
  rcases Nat.lt_or_ge pc p.length with hlt | hge
  · have hbound : p.isBoundary pc = true := hs.resolve_right (Nat.not_le.2 hlt)
    obtain ⟨b, hb⟩ : ∃ b, p.code[pc]? = some b := ⟨_, Array.getElem?_eq_getElem hlt⟩
    simp only [decode, hb, hbound, if_true] at h
    cases hop : Opcode.ofByte? b with
    | some op =>
        rw [hop] at h
        cases h
    | none =>
        rw [hop] at h
        cases h
        exact ⟨b, hbound, hb, rfl⟩
  · rw [decode_of_length_le hge] at h
    cases h

/-- The byte of a decoded instruction is that of its opcode. -/
theorem decode_byte (hpc : pc < p.length) (h : p.decode pc = .ok i) :
    p.isBoundary pc = true ∧ p.code[pc]? = some i.opcode.toByte := by
  obtain ⟨b, op, hb, hbound, hop, rfl⟩ := (decode_eq_ok_iff hpc).1 h
  have hopcode : (p.instructionOf pc op).opcode = op := p.mode.opcode_describe op
  rw [hopcode, Opcode.toByte_of_ofByte? hop]
  exact ⟨hbound, hb⟩

end Program

end FlowCheck
