import FlowCheck.Proofs.Sweep
import Mathlib.Data.List.Chain
import Mathlib.Logic.ExistsUnique

/-!
# Instructions tile the code

Three parts of a program look at where instructions start: the scan that marks the code, the survey
that goes from one instruction to the next, and the decoder.  They agree at every counter
(`code_tiled`).  The survey is never refused, it lists the boundaries that the scan has marked, and
what it lists covers every byte once.  The decoder refuses exactly what is no boundary or no opcode.

A list of entries `Tiles` a stretch of code if each entry starts where the one before it ends.  The
last one may reach beyond the stretch, since an immediate may be cut short by the end of the code.
-/

namespace FlowCheck.Program

variable {p : Program} {pc : Nat}

/-! ## Tilings -/

/-- How many bytes an entry of a listing takes: its opcode and its immediate, or one unrecognised
byte. -/
def extent : Option Instruction → Nat
  | some i => 1 + i.descriptor.width
  | none => 1

/-- Entries stand one behind the other from `lo` until `hi` is reached. -/
def Tiles : (lo : Nat) → List (Nat × Option Instruction) → (hi : Nat) → Prop
  | lo, [], hi => hi ≤ lo
  | lo, (pc, entry) :: rest, hi => pc = lo ∧ lo < hi ∧ Tiles (lo + extent entry) rest hi

theorem Tiles.le {lo hi : Nat} {entries : List (Nat × Option Instruction)}
    (h : Tiles lo entries hi) {e : Nat × Option Instruction} (he : e ∈ entries) : lo ≤ e.1 := by
  induction entries generalizing lo with
  | nil => cases he
  | cons first rest ih =>
      obtain ⟨hfirst, -, hrest⟩ := h
      rcases List.mem_cons.1 he with rfl | he
      · exact Nat.le_of_eq hfirst.symm
      · have hle := ih hrest he
        omega

/-- In a tiling every place lies in exactly one entry. -/
theorem Tiles.existsUnique {lo hi q : Nat} {entries : List (Nat × Option Instruction)}
    (h : Tiles lo entries hi) (hlo : lo ≤ q) (hhi : q < hi) :
    ∃! e, e ∈ entries ∧ e.1 ≤ q ∧ q < e.1 + extent e.2 := by
  induction entries generalizing lo with
  | nil =>
      have hempty : hi ≤ lo := h
      omega
  | cons first rest ih =>
      obtain ⟨hfirst, -, hrest⟩ := h
      rcases Nat.lt_or_ge q (lo + extent first.2) with hlt | hge
      · -- the place lies in the first entry, and all others start behind it
        refine ⟨first, ⟨List.mem_cons_self .., by omega, by omega⟩, ?_⟩
        rintro e ⟨he, hle, -⟩
        rcases List.mem_cons.1 he with rfl | he
        · rfl
        · have hbehind := hrest.le he
          omega
      · -- the place lies behind the first entry, which therefore does not hold it
        obtain ⟨e, ⟨he, hle, hlt⟩, hunique⟩ := ih hrest hge
        refine ⟨e, ⟨List.mem_cons_of_mem _ he, hle, hlt⟩, ?_⟩
        rintro e' ⟨he', hle', hlt'⟩
        rcases List.mem_cons.1 he' with rfl | he'
        · omega
        · exact hunique e' ⟨he', hle', hlt'⟩

/-- In a tiling every entry starts where the one before it ends. -/
theorem Tiles.isChain {lo hi : Nat} {entries : List (Nat × Option Instruction)}
    (h : Tiles lo entries hi) : entries.IsChain (fun a b => b.1 = a.1 + extent a.2) := by
  induction entries generalizing lo with
  | nil => exact List.isChain_nil
  | cons first rest ih =>
      obtain ⟨hfirst, -, hrest⟩ := h
      cases rest with
      | nil => exact List.isChain_singleton first
      | cons second rest =>
          refine List.isChain_cons_cons.2 ⟨?_, ih hrest⟩
          rw [hfirst]
          exact hrest.1

/-- A sweep tiles the bytes behind those that it has to pass. -/
theorem tiles_sweep (mode : OperandMode) (bytes : List UInt8) (offset skip : Nat) :
    Tiles (offset + skip) (sweep mode offset skip bytes) (offset + bytes.length) := by
  induction bytes generalizing offset skip with
  | nil =>
      show offset + 0 ≤ offset + skip
      omega
  | cons b rest ih =>
      have hlength : offset + (b :: rest).length = offset + 1 + rest.length := by
        rw [List.length_cons]
        omega
      rw [hlength]
      cases skip with
      | succ skip =>
          rw [sweep, show offset + (skip + 1) = offset + 1 + skip by omega]
          exact ih (offset + 1) skip
      | zero =>
          rw [sweep]
          refine ⟨rfl, by omega, ?_⟩
          cases hop : Opcode.ofByte? b with
          | none => exact ih (offset + 1) 0
          | some op =>
              show Tiles (offset + (1 + (mode.describe op).width)) _ _
              rw [show offset + (1 + (mode.describe op).width) =
                offset + 1 + (mode.describe op).width by omega]
              exact ih (offset + 1) (mode.describe op).width

theorem tiles_listing (p : Program) : Tiles 0 p.listing p.length := by
  have hlength : 0 + p.code.toList.length = p.length := by
    rw [Nat.zero_add, Array.length_toList, length]
  rw [listing_eq_sweep, ← hlength]
  exact tiles_sweep p.mode p.code.toList 0 0

/-! ## The boundaries -/

theorem boundaries_ascend (p : Program) : p.boundaries.Pairwise (· < ·) :=
  List.pairwise_lt_range.filter _

theorem head?_boundaries (h : 0 < p.length) : p.boundaries.head? = some 0 := by
  have hboundaries : p.boundaries = p.listing.map Prod.fst := by
    rw [listing_eq_map, List.map_map]
    exact (List.map_id _).symm
  have htiles := tiles_listing p
  rw [hboundaries]
  cases hlisting : p.listing with
  | nil =>
      rw [hlisting] at htiles
      exact absurd h (Nat.not_lt.2 htiles)
  | cons first rest =>
      rw [hlisting] at htiles
      exact congrArg some htiles.1

/-- Only one byte stands for the opcode of a landing marker. -/
theorem ofByte?_eq_markerOpcode_iff {marker : Marker} {b : UInt8} :
    Opcode.ofByte? b = some (markerOpcode marker) ↔ b = (markerOpcode marker).toByte := by
  constructor
  · intro h
    exact (Opcode.toByte_of_ofByte? h).symm
  · rintro rfl
    cases marker <;> rfl

/-- A transfer may land exactly on the boundaries that hold the byte of its marker. -/
theorem hasMarker_iff (marker : Marker) :
    p.hasMarker marker pc = true ↔
      p.isBoundary pc = true ∧ p.code[pc]? = some (markerOpcode marker).toByte := by
  constructor
  · intro h
    obtain ⟨hpc, hdecode⟩ := decode_of_hasMarker h
    have hbyte := decode_byte hpc hdecode
    rwa [show (p.instructionOf pc (markerOpcode marker)).opcode = markerOpcode marker from
      p.mode.opcode_describe _] at hbyte
  · rintro ⟨hbound, hb⟩
    obtain ⟨m, hm, hne⟩ := isBoundary_iff.1 hbound
    obtain ⟨b, hb', hmark, -⟩ := marks_behind hm hne
    obtain rfl : (markerOpcode marker).toByte = b := by simpa [hb] using hb'
    rw [ofByte?_eq_markerOpcode_iff.2 rfl] at hmark
    subst hmark
    cases marker <;> simp [hasMarker, isJumpdest, isEntry, hm, markerOpcode, Mark.ofOpcode?]

/-! ## The decoder -/

/-- Inside the code, the decoder refuses what is no boundary and what is no opcode. -/
theorem decode_error_iff :
    (∃ r, p.decode pc = .error r) ↔
      pc < p.length ∧ (p.isBoundary pc = false ∨ (p.code[pc]?).bind Opcode.ofByte? = none) := by
  cases hb : p.code[pc]? with
  | none =>
      have hge := Array.getElem?_eq_none_iff.1 hb
      constructor
      · rintro ⟨r, hr⟩
        rw [decode_of_length_le hge] at hr
        cases hr
      · rintro ⟨hlt, -⟩
        exact absurd hge (Nat.not_le.2 hlt)
  | some b =>
      have hlt : pc < p.length := (Array.getElem?_eq_some_iff.1 hb).1
      simp only [decode, hb, hlt, true_and, Option.bind_some]
      cases hbound : p.isBoundary pc with
      | false => simp
      | true => cases Opcode.ofByte? b <;> simp

theorem decode_eq_endOfCode_iff : p.decode pc = .ok (endOfCode pc) ↔ p.length ≤ pc := by
  constructor
  · intro h
    exact (decode_implicit_iff h).1 rfl
  · exact decode_of_length_le

theorem stands_next_of_decode {i : Instruction} (h : p.decode pc = .ok i) : p.Stands i.next := by
  rcases Nat.lt_or_ge pc p.length with hlt | hge
  · exact stands_next hlt h
  · right
    rw [Instruction.next, decode_pc h]
    omega

/-- At a negative counter nothing is decoded; all others are places of the code or behind it. -/
theorem decodeAt_cases (p : Program) (counter : Int) :
    (counter < 0 ∧ p.decodeAt counter = .error ⟨.negativeCounter, some counter, none⟩) ∨
      ∃ pc : Nat, counter = pc ∧ p.decodeAt counter = p.decode pc := by
  cases counter with
  | ofNat pc => exact Or.inr ⟨pc, rfl, rfl⟩
  | negSucc n => exact Or.inl ⟨Int.negSucc_lt_zero n, rfl⟩

theorem decodeAt_eq_endOfCode_iff {counter : Int} :
    p.decodeAt counter = .ok (endOfCode counter.toNat) ↔ (p.length : Int) ≤ counter := by
  rcases decodeAt_cases p counter with ⟨hneg, hdecode⟩ | ⟨pc, rfl, hdecode⟩
  · rw [hdecode]
    constructor
    · intro h
      cases h
    · intro h
      omega
  · rw [hdecode, Int.toNat_natCast, decode_eq_endOfCode_iff]
    omega

theorem decodeAt_error_iff {counter : Int} :
    (∃ r, p.decodeAt counter = .error r) ↔ counter < 0 ∨ ∃ pc : Nat, counter = pc ∧
      pc < p.length ∧ (p.isBoundary pc = false ∨ (p.code[pc]?).bind Opcode.ofByte? = none) := by
  rcases decodeAt_cases p counter with ⟨hneg, hdecode⟩ | ⟨pc, rfl, hdecode⟩
  · rw [hdecode]
    exact ⟨fun _ => Or.inl hneg, fun _ => ⟨_, rfl⟩⟩
  · rw [hdecode, decode_error_iff]
    constructor
    · intro h
      exact Or.inr ⟨pc, rfl, h⟩
    · rintro (hneg | ⟨pc', hpc, h⟩)
      · omega
      · rwa [Int.ofNat_inj.1 hpc]

theorem decodeAt_error_located {counter : Int} {r : Rejection}
    (h : p.decodeAt counter = .error r) :
    r.cause.reason = .invalidInstruction ∧ r.pc = some counter := by
  rcases decodeAt_cases p counter with ⟨-, hdecode⟩ | ⟨pc, rfl, hdecode⟩
  · rw [hdecode] at h
    cases h
    exact ⟨rfl, rfl⟩
  · rw [hdecode] at h
    exact decode_error_located h

theorem stands_next_of_decodeAt {counter : Int} {i : Instruction}
    (h : p.decodeAt counter = .ok i) : p.Stands i.next := by
  rcases decodeAt_cases p counter with ⟨-, hdecode⟩ | ⟨pc, rfl, hdecode⟩
  · rw [hdecode] at h
    cases h
  · rw [hdecode] at h
    exact stands_next_of_decode h

/-- Scan, survey and decoder agree on every program.  The survey is not refused, and lists exactly
the boundaries of the scan with what is decoded there, in ascending order.  It starts at the
beginning of the code and goes on behind each opcode and its immediate or behind each unrecognised
byte, so every byte lies in exactly one entry.  At every integer, the decoder finds the implicit
stop exactly from the end of the code on, and refuses exactly the negative counters, those that are
no boundaries and the bytes that are no opcodes; behind everything that it decodes stands a boundary
or the end of the code.  A transfer may land exactly on the boundaries that hold the byte of its
marker. -/
theorem code_tiled (p : Program) :
    (p.survey.refusal = none ∧
      p.listing = p.boundaries.map (fun pc => (pc, (p.decode pc).toOption)) ∧
      p.boundaries.Pairwise (· < ·) ∧ ∀ pc, pc ∈ p.boundaries ↔ p.isBoundary pc = true) ∧
    ((0 < p.length → p.boundaries.head? = some 0) ∧
      p.listing.IsChain (fun a b => b.1 = a.1 + extent a.2) ∧
      ∀ q < p.length, ∃! e, e ∈ p.listing ∧ e.1 ≤ q ∧ q < e.1 + extent e.2) ∧
    (∀ counter : Int,
      (p.decodeAt counter = .ok (endOfCode counter.toNat) ↔ (p.length : Int) ≤ counter) ∧
      ((∃ r, p.decodeAt counter = .error r) ↔ counter < 0 ∨ ∃ pc : Nat, counter = pc ∧
        pc < p.length ∧ (p.isBoundary pc = false ∨ (p.code[pc]?).bind Opcode.ofByte? = none)) ∧
      (∀ r, p.decodeAt counter = .error r →
        r.cause.reason = .invalidInstruction ∧ r.pc = some counter) ∧
      ∀ i, p.decodeAt counter = .ok i → p.isBoundary i.next = true ∨ p.length ≤ i.next) ∧
    ∀ pc, (p.isJumpdest pc = true ↔ p.isBoundary pc = true ∧ p.code[pc]? = some 0x5b) ∧
      (p.isEntry pc = true ↔ p.isBoundary pc = true ∧ p.code[pc]? = some 0x5c) := by
  have htiles := tiles_listing p
  refine ⟨⟨?_, listing_eq_map p, boundaries_ascend p, fun pc => mem_boundaries⟩,
    ⟨head?_boundaries, htiles.isChain, fun q hq => htiles.existsUnique (Nat.zero_le q) hq⟩,
    fun counter => ⟨decodeAt_eq_endOfCode_iff, decodeAt_error_iff,
      fun r hr => decodeAt_error_located hr, fun i hi => stands_next_of_decodeAt hi⟩,
    fun pc => ⟨hasMarker_iff .jumpdest, hasMarker_iff .entry⟩⟩
  rw [survey_eq_sweep]

end FlowCheck.Program
