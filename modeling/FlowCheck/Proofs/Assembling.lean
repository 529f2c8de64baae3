import FlowCheck.Assembler.Basic
import FlowCheck.Assembler.Listing
import FlowCheck.Input
import FlowCheck.Proofs.Sweep
import Mathlib.Data.List.Nodup

/-!
# Assembling and listing

Assembling fixes the offsets in one pass and writes the bytes in another, listing finds the offsets
again in the bytes alone.  Both walk the code instruction by instruction: the layout places an
instruction where the ones before it end, and so does the sweep.  What the assembler accepts is
therefore listed as it was written, with labels replaced by offsets, and what is listed assembles to
the same bytes.
-/

namespace FlowCheck

/-! ## Immediates -/

theorem Value.order?_of_integer? {v : Value} {m : Int} (h : v.integer? = some m) (n : Int) :
    v.order? (.int n) = some (some (compare m n)) := by
  cases v <;> simp only [Value.integer?, Option.some.injEq, reduceCtorEq] at h <;> subst h <;> rfl

namespace Bytes

variable {v : Value} {width : Nat}

theorem encodeValue_of_nat {n : Nat} (h : v.integer? = some (n : Int)) :
    encodeValue v width =
      if n < 256 ^ width then .ok (BigEndian.encode width n)
      else .error (.ofMisfit v (.int width)) := by
  have hsign : compare (n : Int) 0 ≠ .lt := by
    rw [Ne, Int.compare_eq_lt]
    omega
  have hpow : ((256 : Int) ^ width) = ((256 ^ width : Nat) : Int) := by simp
  rw [encodeValue, encodeShown, Value.order?_of_integer? h, Value.order?_of_integer? h,
    if_neg (by omega : ¬(width : Int) < 0), h, Int.toNat_natCast, hpow]
  cases hzero : compare (n : Int) 0 with
  | lt => exact absurd hzero hsign
  | eq | gt =>
    cases htop : compare (n : Int) ((256 ^ width : Nat) : Int) with
    | lt =>
        rw [if_pos (by exact_mod_cast Int.compare_eq_lt.1 htop)]
        rfl
    | eq =>
        have heq := Int.compare_eq_eq.1 htop
        rw [if_neg (by omega)]
    | gt =>
        have hgt := Int.compare_eq_gt.1 htop
        rw [if_neg (by omega)]

/-- Data has an immediate exactly if it is an integer that fits the width. -/
theorem encodeValue_eq_ok_iff {bytes : List UInt8} :
    encodeValue v width = .ok bytes ↔
      ∃ n : Nat, v.integer? = some (n : Int) ∧ n < 256 ^ width ∧
        bytes = BigEndian.encode width n := by
  constructor
  · intro h
    rcases hv : v.integer? with _ | m
    · rw [encodeValue, encodeShown, if_neg (by omega : ¬(width : Int) < 0), hv] at h
      split at h
      · cases h
      · cases h
      · split at h <;> cases h
    · rcases Int.lt_or_le m 0 with hneg | hnonneg
      · rw [encodeValue, encodeShown, Value.order?_of_integer? hv, Int.compare_eq_lt.2 hneg] at h
        cases h
      · obtain ⟨n, rfl⟩ := Int.eq_ofNat_of_zero_le hnonneg
        rw [encodeValue_of_nat hv] at h
        split at h
        · rename_i hfits
          cases h
          exact ⟨n, rfl, hfits, rfl⟩
        · cases h
  · rintro ⟨n, hv, hfits, rfl⟩
    rw [encodeValue_of_nat hv, if_pos hfits]

end Bytes

/-! ## Mnemonics -/

namespace Opcode

variable {op : Opcode}

theorem mem_all {b : UInt8} (h : ofByte? b = some op) : op ∈ all := by
  apply List.mem_filterMap.2
  refine ⟨b.toNat, List.mem_range.2 b.toNat_lt, ?_⟩
  rw [UInt8.ofNat_toNat, h]

theorem ofByte?_toByte (h : op ∈ all) : ofByte? op.toByte = some op := by
  obtain ⟨n, -, hn⟩ := List.mem_filterMap.1 h
  rw [toByte_of_ofByte? hn, hn]

theorem capitals_mnemonic (h : op ∈ all) : Text.capitals op.mnemonic = op.mnemonic := by
  have hall : ∀ op ∈ all, Text.capitals op.mnemonic = op.mnemonic := by decide +kernel
  exact hall op h

/-- No two opcodes share a mnemonic. -/
theorem mnemonic_injOn {other : Opcode} (h : op ∈ all) (hother : other ∈ all)
    (heq : op.mnemonic = other.mnemonic) : op = other := by
  -- texts are told apart as numbers, which are compared in one step
  have hkeys : (all.map (fun op =>
      Bytes.BigEndian.decode op.mnemonic.toByteArray.data.toList)).Nodup := by decide +kernel
  apply List.inj_on_of_nodup_map hkeys h hother
  show Bytes.BigEndian.decode _ = Bytes.BigEndian.decode _
  rw [heq]

end Opcode

namespace OperandMode

variable {mode : OperandMode} {op : Opcode}

theorem ofMnemonic?_eq_some {s : String} {d : Descriptor} (h : mode.ofMnemonic? s = some d) :
    ∃ op ∈ Opcode.all, d = mode.describe op := by
  obtain ⟨op, hop, rfl⟩ := Option.map_eq_some_iff.1 h
  exact ⟨op, List.mem_of_find?_eq_some hop, rfl⟩

/-- Every opcode is found under its own mnemonic. -/
theorem ofMnemonic?_mnemonic (mode : OperandMode) (h : op ∈ Opcode.all) :
    mode.ofMnemonic? op.mnemonic = some (mode.describe op) := by
  rw [ofMnemonic?, Opcode.capitals_mnemonic h]
  cases hfind : Opcode.all.find? (fun o => o.mnemonic == op.mnemonic) with
  | none =>
      have hnone := List.find?_eq_none.1 hfind op h
      simp at hnone
  | some found =>
      have hmnemonic : found.mnemonic = op.mnemonic := by
        simpa using List.find?_some hfind
      rw [Opcode.mnemonic_injOn (List.mem_of_find?_eq_some hfind) h hmnemonic]
      rfl

end OperandMode

namespace Assembler

variable {mode : OperandMode} {offset : Nat} {labels labels' : Labels} {items : List Item}
  {placed : List Placed} {p : Placed} {mnemonic : String} {operand : Option Operand}

/-! ## The layout -/

/-- The number of bytes of an item. -/
def Item.size (mode : OperandMode) : Item → Nat
  | instruction mnemonic _ => ((mode.ofMnemonic? mnemonic).map (fun d => 1 + d.width)).getD 0
  | _ => 0

def Item.isInstruction : Item → Bool
  | instruction .. => true
  | _ => false

/-- The number of bytes of items in a row. -/
def span (mode : OperandMode) (items : List Item) : Nat :=
  (items.map (Item.size mode)).sum

theorem span_cons (item : Item) (rest : List Item) :
    span mode (item :: rest) = item.size mode + span mode rest := by
  simp [span]

theorem place_eq_ok_iff :
    place mode offset mnemonic operand = .ok p ↔
      ∃ d, mode.ofMnemonic? mnemonic = some d ∧ (d.width = 0 ↔ operand = none) ∧
        p = ⟨offset, d, operand⟩ := by
  rw [place]
  cases mode.ofMnemonic? mnemonic with
  | none => simp
  | some d => cases operand <;> by_cases hwidth : d.width = 0 <;> simp [hwidth, eq_comm]

theorem size_of_place (h : place mode offset mnemonic operand = .ok p) :
    (Item.instruction mnemonic operand).size mode = p.size := by
  obtain ⟨d, hd, -, rfl⟩ := place_eq_ok_iff.1 h
  simp [Item.size, hd, Placed.size]

theorem layout_label {text : String} {rest : List Item} {result : Labels × List Placed} :
    layout mode offset labels (.label text :: rest) = .ok result ↔
      ∃ name, labelName? text = some name ∧ labels.lookup name = none ∧
        layout mode offset ((name, offset) :: labels) rest = .ok result := by
  rw [layout]
  cases labelName? text with
  | none => simp
  | some name =>
      cases hlookup : labels.lookup name with
      | none => simp only [hlookup, Option.isSome_none, Bool.false_eq_true, if_false, true_and,
          Option.some.injEq, exists_eq_left']
      | some o => simp only [hlookup, Option.isSome_some, if_true, Option.some.injEq,
          exists_eq_left', reduceCtorEq, false_and]

theorem layout_instruction {rest : List Item} :
    layout mode offset labels (.instruction mnemonic operand :: rest) = .ok (labels', placed) ↔
      ∃ p behind, place mode offset mnemonic operand = .ok p ∧
        layout mode (offset + p.size) labels rest = .ok (labels', behind) ∧
        placed = p :: behind := by
  rw [layout]
  cases place mode offset mnemonic operand with
  | error e => simp
  | ok p =>
      cases hlayout : layout mode (offset + p.size) labels rest with
      | error e => simp [hlayout]
      | ok result =>
          obtain ⟨found, behind⟩ := result
          simp [hlayout, eq_comm]

/-- A label among items that start at an offset defines a name. -/
def Defines (mode : OperandMode) (offset : Nat) (items : List Item) (name : String) (o : Nat) :
    Prop :=
  ∃ front text back, items = front ++ .label text :: back ∧ labelName? text = some name ∧
    o = offset + span mode front

theorem defines_cons {item : Item} {rest : List Item} {name : String} {o : Nat} :
    Defines mode offset (item :: rest) name o ↔
      (∃ text, item = .label text ∧ labelName? text = some name ∧ o = offset) ∨
        Defines mode (offset + item.size mode) rest name o := by
  constructor
  · rintro ⟨front, text, back, hitems, hname, rfl⟩
    cases front with
    | nil =>
        obtain ⟨rfl, -⟩ := List.cons.inj hitems
        exact Or.inl ⟨text, rfl, hname, rfl⟩
    | cons first front =>
        obtain ⟨rfl, hrest⟩ := List.cons.inj hitems
        refine Or.inr ⟨front, text, back, hrest, hname, ?_⟩
        rw [span_cons, Nat.add_assoc]
  · rintro (⟨text, rfl, hname, rfl⟩ | ⟨front, text, back, rfl, hname, rfl⟩)
    · exact ⟨[], text, rest, rfl, hname, rfl⟩
    · refine ⟨item :: front, text, back, rfl, hname, ?_⟩
      rw [span_cons, Nat.add_assoc]

/-- Behind a layout, a name stands for the bytes in front of the label that defines it. -/
theorem layout_lookup (h : layout mode offset labels items = .ok (labels', placed)) (name : String)
    (o : Nat) :
    labels'.lookup name = some o ↔
      labels.lookup name = some o ∨ Defines mode offset items name o := by
  induction items generalizing offset labels placed with
  | nil =>
      cases h
      simp [Defines]
  | cons item rest ih =>
      rw [defines_cons]
      cases item with
      | misshapen shape => cases h
      | instruction mnemonic operand =>
          obtain ⟨p, behind, hp, hrest, rfl⟩ := layout_instruction.1 h
          rw [ih hrest, size_of_place hp]
          simp
      | label text =>
          obtain ⟨defined, hname, hfresh, hrest⟩ := layout_label.1 h
          rw [ih hrest, ← or_assoc]
          apply or_congr_left
          rw [List.lookup_cons]
          by_cases heq : name = defined
          · subst heq
            simp [hfresh, hname, eq_comm]
          · rw [beq_false_of_ne heq]
            simp [hname, Ne.symm heq]

theorem length_of_layout (h : layout mode offset labels items = .ok (labels', placed)) :
    placed.length = items.countP Item.isInstruction := by
  induction items generalizing offset labels placed with
  | nil =>
      cases h
      rfl
  | cons item rest ih =>
      cases item with
      | misshapen shape => cases h
      | label text =>
          obtain ⟨name, -, -, hrest⟩ := layout_label.1 h
          rw [ih hrest]
          rfl
      | instruction mnemonic operand =>
          obtain ⟨p, behind, -, hrest, rfl⟩ := layout_instruction.1 h
          rw [List.length_cons, ih hrest, List.countP_cons_of_pos rfl]

/-- An instruction is placed behind the bytes of the items in front of it. -/
theorem place_of_layout {front back : List Item}
    (h : layout mode offset labels (front ++ .instruction mnemonic operand :: back) =
      .ok (labels', placed)) :
    ∃ p, place mode (offset + span mode front) mnemonic operand = .ok p ∧
      placed[front.countP Item.isInstruction]? = some p := by
  induction front generalizing offset labels placed with
  | nil =>
      obtain ⟨p, behind, hp, -, rfl⟩ := layout_instruction.1 h
      exact ⟨p, hp, rfl⟩
  | cons item rest ih =>
      cases item with
      | misshapen shape => cases h
      | label text =>
          obtain ⟨name, -, -, hrest⟩ := layout_label.1 h
          obtain ⟨p, hp, hget⟩ := ih hrest
          refine ⟨p, ?_, hget⟩
          rw [span_cons]
          exact (Nat.zero_add (span mode rest)).symm ▸ hp
      | instruction mnemonic' operand' =>
          obtain ⟨q, behind, hq, hrest, rfl⟩ := layout_instruction.1 h
          obtain ⟨p, hp, hget⟩ := ih hrest
          refine ⟨p, ?_, ?_⟩
          · rwa [span_cons, size_of_place hq, ← Nat.add_assoc]
          · rw [List.countP_cons_of_pos rfl, List.getElem?_cons_succ, hget]

/-! ## Bytes -/

theorem mapM_cons_eq_ok {α β : Type} {f : α → Except Error β} {x : α} {rest : List α}
    {results : List β} :
    (x :: rest).mapM f = .ok results ↔
      ∃ y behind, f x = .ok y ∧ rest.mapM f = .ok behind ∧ results = y :: behind := by
  rw [List.mapM_cons]
  cases f x with
  | error e => simp [bind, Except.bind]
  | ok y =>
      cases rest.mapM f with
      | error e => simp [bind, Except.bind]
      | ok behind => simp [bind, Except.bind, pure, Except.pure, eq_comm]

/-- The number that is written behind a placed instruction. -/
def Placed.immediate? (labels : Labels) (p : Placed) : Option Nat :=
  p.operand.bind fun operand =>
    ((resolve labels operand).toOption.bind Value.integer?).map Int.toNat

/-- A placed instruction as it is decoded. -/
def Placed.instruction (labels : Labels) (p : Placed) : Instruction where
  pc := p.offset
  descriptor := p.descriptor
  immediate := p.immediate? labels

theorem emit_of_some {operand : Operand} (h : p.operand = some operand) {bytes : List UInt8} :
    emit labels p = .ok bytes ↔
      ∃ v, ∃ n : Nat, resolve labels operand = .ok v ∧ v.integer? = some (n : Int) ∧
        n < 256 ^ p.descriptor.width ∧
        bytes = p.descriptor.opcode.toByte :: Bytes.BigEndian.encode p.descriptor.width n := by
  rw [emit, h]
  constructor
  · intro he
    cases hv : resolve labels operand with
    | error e => simp [hv] at he
    | ok v =>
        cases hencoded : Bytes.encodeValue v p.descriptor.width with
        | error e => simp [hv, hencoded] at he
        | ok encoded =>
            obtain ⟨n, hn, hfits, rfl⟩ := Bytes.encodeValue_eq_ok_iff.1 hencoded
            simp only [hv, hencoded, Except.ok.injEq] at he
            exact ⟨v, n, rfl, hn, hfits, he.symm⟩
  · rintro ⟨v, n, hv, hn, hfits, rfl⟩
    simp only [hv, Bytes.encodeValue_eq_ok_iff.2 ⟨n, hn, hfits, rfl⟩]

/-- What is written for a placed instruction is its byte and the bytes of its number. -/
theorem emit_bytes {bytes : List UInt8} (hp : place mode offset mnemonic operand = .ok p)
    (he : emit labels p = .ok bytes) :
    ∃ written, bytes = p.descriptor.opcode.toByte :: written ∧
      written.length = p.descriptor.width ∧
      p.immediate? labels =
        if p.descriptor.width = 0 then none else some (Bytes.BigEndian.decode written) := by
  obtain ⟨d, -, hwidth, rfl⟩ := place_eq_ok_iff.1 hp
  cases operand with
  | none =>
      cases he
      exact ⟨[], rfl, (hwidth.2 rfl).symm, (if_pos (hwidth.2 rfl)).symm⟩
  | some operand =>
      obtain ⟨v, n, hv, hn, hfits, rfl⟩ := (emit_of_some rfl).1 he
      have hne : d.width ≠ 0 := fun h0 => by cases hwidth.1 h0
      refine ⟨_, rfl, Bytes.BigEndian.length_encode .., ?_⟩
      rw [if_neg hne, Bytes.BigEndian.decode_encode _ _ hfits]
      simp [Placed.immediate?, hv, Except.toOption, hn]

/-- The sweep reads the bytes of a placed instruction back and goes on behind them. -/
theorem sweep_emit {bytes : List UInt8} (hp : place mode offset mnemonic operand = .ok p)
    (he : emit labels p = .ok bytes) (rest : List UInt8) :
    Program.sweep mode offset 0 (bytes ++ rest) =
      (offset, some (p.instruction labels)) :: Program.sweep mode (offset + p.size) 0 rest := by
  obtain ⟨written, rfl, hlength, himmediate⟩ := emit_bytes hp he
  obtain ⟨d, hd, -, rfl⟩ := place_eq_ok_iff.1 hp
  obtain ⟨op, hop, rfl⟩ := OperandMode.ofMnemonic?_eq_some hd
  have hbyte : Opcode.ofByte? (mode.describe op).opcode.toByte = some op := by
    rw [OperandMode.opcode_describe, Opcode.ofByte?_toByte hop]
  rw [List.cons_append, Program.sweep_cons hbyte, List.drop_left' hlength, Placed.size,
    ← Nat.add_assoc]
  -- the number that the sweep reads is the one that was written
  simp only [Program.instructionBefore, Program.padded_append hlength, Placed.instruction,
    himmediate]

/-- The sweep lists laid out instructions as they were placed. -/
theorem sweep_of_layout {known : Labels} {chunks : List (List UInt8)}
    (h : layout mode offset labels items = .ok (labels', placed))
    (hchunks : placed.mapM (emit known) = .ok chunks) :
    Program.sweep mode offset 0 chunks.flatten =
      (placed.map (Placed.instruction known)).map (fun i => (i.pc, some i)) := by
  induction items generalizing offset labels placed chunks with
  | nil =>
      cases h
      cases hchunks
      rfl
  | cons item rest ih =>
      cases item with
      | misshapen shape => cases h
      | label text =>
          obtain ⟨name, -, -, hrest⟩ := layout_label.1 h
          exact ih hrest hchunks
      | instruction mnemonic operand =>
          obtain ⟨p, behind, hp, hrest, rfl⟩ := layout_instruction.1 h
          obtain ⟨bytes, others, he, hothers, rfl⟩ := mapM_cons_eq_ok.1 hchunks
          have hoffset : p.offset = offset := by
            obtain ⟨d, -, -, rfl⟩ := place_eq_ok_iff.1 hp
            rfl
          rw [List.flatten_cons, sweep_emit hp he, ih hrest hothers, ← hoffset]
          rfl

/-! ## Listings of assembled items -/

/-- The number that an operand stands for among items. -/
def Denotes (mode : OperandMode) (items : List Item) : Option Operand → Option Nat → Prop
  | none, immediate => immediate = none
  | some (.number n), immediate => ∃ k : Nat, n = k ∧ immediate = some k
  | some (.label name), immediate =>
      ∃ o, (∀ o', Defines mode 0 items name o' ↔ o' = o) ∧ immediate = some o
  | some (.data v), immediate => ∃ k : Nat, v.integer? = some (k : Int) ∧ immediate = some k

/-- Lines list items: one line for every instruction, in order, at the offset that the sizes of the
items in front of it add up to, with its canonical mnemonic and the number of its operand. -/
def Lists (mode : OperandMode) (items : List Item) (lines : List ListingLine) : Prop :=
  lines.length = items.countP Item.isInstruction ∧
    ∀ front mnemonic operand back, items = front ++ .instruction mnemonic operand :: back →
      ∃ d immediate, mode.ofMnemonic? mnemonic = some d ∧
        (d.width = 0 ↔ immediate = none) ∧ Denotes mode items operand immediate ∧
        lines[front.countP Item.isInstruction]? =
          some ⟨span mode front, d.mnemonic, immediate⟩

theorem denotes_of_emit {bytes : List UInt8}
    (hlayout : layout mode 0 [] items = .ok (labels, placed))
    (hp : place mode offset mnemonic operand = .ok p) (he : emit labels p = .ok bytes) :
    Denotes mode items operand (p.immediate? labels) := by
  obtain ⟨d, -, -, rfl⟩ := place_eq_ok_iff.1 hp
  cases operand with
  | none => rfl
  | some operand =>
      obtain ⟨v, n, hv, hn, -, -⟩ := (emit_of_some rfl).1 he
      have hnumber : Placed.immediate? labels ⟨offset, d, some operand⟩ = some n := by
        simp [Placed.immediate?, hv, Except.toOption, hn]
      rw [hnumber]
      cases operand with
      | number m =>
          cases hv
          cases hn
          exact ⟨n, rfl, rfl⟩
      | data w =>
          cases hv
          exact ⟨n, hn, rfl⟩
      | label name =>
          cases hlookup : labels.lookup name with
          | none => simp [resolve, hlookup] at hv
          | some o =>
              obtain rfl : Value.nat o = v := by simpa [resolve, hlookup] using hv
              cases hn
              refine ⟨n, fun o' => ?_, rfl⟩
              have hdefines := layout_lookup hlayout name o'
              rw [hlookup] at hdefines
              simpa [eq_comm] using hdefines.symm

theorem assemble_eq_ok_iff {code : List UInt8} :
    assemble mode items = .ok code ↔
      ∃ labels placed chunks, layout mode 0 [] items = .ok (labels, placed) ∧
        placed.mapM (emit labels) = .ok chunks ∧ code = chunks.flatten := by
  rw [assemble]
  cases layout mode 0 [] items with
  | error e => simp
  | ok result =>
      obtain ⟨labels, placed⟩ := result
      cases hchunks : placed.mapM (emit labels) with
      | error e => simp [hchunks, Except.map]
      | ok chunks => simp [hchunks, Except.map, eq_comm]

theorem exists_emit {chunks : List (List UInt8)} (h : placed.mapM (emit labels) = .ok chunks)
    (hp : p ∈ placed) : ∃ bytes, emit labels p = .ok bytes := by
  induction placed generalizing chunks with
  | nil => cases hp
  | cons first rest ih =>
      obtain ⟨bytes, others, he, hothers, -⟩ := mapM_cons_eq_ok.1 h
      rcases List.mem_cons.1 hp with rfl | hmem
      · exact ⟨bytes, he⟩
      · exact ih hothers hmem

/-- The line of an instruction. -/
def lineOf (i : Instruction) : ListingLine :=
  ⟨i.pc, i.descriptor.mnemonic, i.immediate⟩

theorem disassemble_of_listing {program : Program} {instructions : List Instruction}
    (h : program.listing = instructions.map (fun i => (i.pc, some i))) :
    disassemble program = instructions.map lineOf := by
  rw [disassemble, h, List.map_map]
  rfl

theorem lists_of_assemble {code : List UInt8} (h : assemble mode items = .ok code) :
    Lists mode items (disassemble (.ofCode mode code.toArray)) := by
  obtain ⟨labels, placed, chunks, hlayout, hchunks, rfl⟩ := assemble_eq_ok_iff.1 h
  have hlisting := Program.listing_eq_sweep (.ofCode mode chunks.flatten.toArray)
  rw [disassemble_of_listing (hlisting.trans (sweep_of_layout hlayout hchunks)), List.map_map]
  constructor
  · rw [List.length_map, length_of_layout hlayout]
  · rintro front mnemonic operand back rfl
    obtain ⟨p, hp, hget⟩ := place_of_layout hlayout
    obtain ⟨bytes, he⟩ := exists_emit hchunks (List.mem_of_getElem? hget)
    have hdenotes := denotes_of_emit hlayout hp he
    obtain ⟨written, -, -, himmediate⟩ := emit_bytes hp he
    obtain ⟨d, hd, -, rfl⟩ := place_eq_ok_iff.1 hp
    refine ⟨d, _, hd, ?_, hdenotes, ?_⟩
    · rw [himmediate]
      by_cases hwidth : d.width = 0 <;> simp [hwidth]
    · rw [List.getElem?_map, hget, Nat.zero_add]
      rfl

/-! ## Assembling a listing -/

/-- A line of a listing as an item. -/
def ListingLine.toItem (line : ListingLine) : Item :=
  .instruction line.mnemonic (line.immediate.map (fun n => .number n))

/-- How many bytes the last instruction of a listing lacks in code of a length. -/
def lacking (length : Nat) (listing : List (Nat × Option Instruction)) : Nat :=
  match listing.getLast? with
  | some (_, some i) => i.next - length
  | _ => 0

/-- A swept instruction assembles to the bytes it was read from, with the missing ones as zeros. -/
theorem emit_swept (mode : OperandMode) (offset : Nat) (labels : Labels) {op : Opcode}
    (hop : op ∈ Opcode.all) (rest : List UInt8) :
    ∃ p, place mode offset op.mnemonic
          ((Program.instructionBefore mode offset op rest).immediate.map (fun n => .number n)) =
        .ok p ∧
      p.size = 1 + (mode.describe op).width ∧
      emit labels p = .ok (op.toByte :: Program.padded (mode.describe op).width rest) := by
  have hd := mode.ofMnemonic?_mnemonic hop
  by_cases hwidth : (mode.describe op).width = 0
  · have himmediate : (Program.instructionBefore mode offset op rest).immediate = none :=
      if_pos hwidth
    rw [himmediate]
    refine ⟨⟨offset, mode.describe op, none⟩, place_eq_ok_iff.2 ⟨_, hd, by simp [hwidth], rfl⟩,
      rfl, ?_⟩
    rw [emit, OperandMode.opcode_describe, hwidth]
    simp [Program.padded]
  · have himmediate : (Program.instructionBefore mode offset op rest).immediate =
        some (Bytes.BigEndian.decode (Program.padded (mode.describe op).width rest)) :=
      if_neg hwidth
    rw [himmediate]
    refine ⟨⟨offset, mode.describe op, some (.number _)⟩,
      place_eq_ok_iff.2 ⟨_, hd, by simp [hwidth], rfl⟩, rfl, ?_⟩
    have hlength := Program.length_padded (mode.describe op).width rest
    have hencode := Bytes.BigEndian.encode_decode (Program.padded (mode.describe op).width rest)
    have hlt := Bytes.BigEndian.decode_lt (Program.padded (mode.describe op).width rest)
    rw [hlength] at hencode hlt
    apply (emit_of_some rfl).2
    refine ⟨_, _, rfl, rfl, hlt, ?_⟩
    rw [OperandMode.opcode_describe, hencode]

/-- What an instruction lacks are the bytes by which its immediate was filled up. -/
theorem padded_append_drop (op : Opcode) (rest : List UInt8) :
    let width := (mode.describe op).width
    let behind := Program.sweep mode (offset + 1 + width) 0 (rest.drop width)
    Program.padded width rest ++ (rest.drop width ++
        List.replicate (lacking (offset + 1 + width + (rest.drop width).length) behind) 0) =
      rest ++ List.replicate (lacking (offset + (rest.length + 1))
        ((offset, some (Program.instructionBefore mode offset op rest)) :: behind)) 0 := by
  intro width behind
  rcases Nat.lt_or_ge width rest.length with hlt | hge
  · -- the immediate is whole, and something stands behind it
    have hlength : offset + 1 + width + (rest.drop width).length = offset + (rest.length + 1) := by
      rw [List.length_drop]
      omega
    have hpadded : Program.padded width rest = rest.take width := by
      rw [Program.padded, Nat.sub_eq_zero_of_le (by omega)]
      exact List.append_nil _
    obtain ⟨entry, others, hbehind⟩ : ∃ entry others, behind = entry :: others := by
      show ∃ entry others,
        Program.sweep mode (offset + 1 + width) 0 (rest.drop width) = entry :: others
      rw [List.drop_eq_getElem_cons hlt]
      exact ⟨_, _, rfl⟩
    rw [hlength, hpadded, ← List.append_assoc, List.take_append_drop, hbehind, lacking, lacking,
      List.getLast?_cons_cons]
  · -- the immediate is the last of the code
    have hdrop : rest.drop width = [] := List.drop_eq_nil_of_le hge
    have hbehind : behind = [] := by
      show Program.sweep mode (offset + 1 + width) 0 (rest.drop width) = []
      rw [hdrop]
      rfl
    have hlacking : lacking (offset + (rest.length + 1))
        [(offset, some (Program.instructionBefore mode offset op rest))] = width - rest.length := by
      show offset + 1 + width - (offset + (rest.length + 1)) = width - rest.length
      omega
    rw [hbehind, hlacking, hdrop, Program.padded, List.take_of_length_le hge]
    simp [lacking]

theorem assemble_swept (bytes : List UInt8)
    (hknown : ∀ entry ∈ Program.sweep mode offset 0 bytes, entry.2.isSome = true) :
    ∃ (instructions : List Instruction) (placed : List Placed) (chunks : List (List UInt8)),
      Program.sweep mode offset 0 bytes = instructions.map (fun i => (i.pc, some i)) ∧
        layout mode offset [] (instructions.map (fun i => (lineOf i).toItem)) = .ok ([], placed) ∧
        placed.mapM (emit []) = .ok chunks ∧
        chunks.flatten = bytes ++ List.replicate
          (lacking (offset + bytes.length) (Program.sweep mode offset 0 bytes)) 0 := by
  induction hn : bytes.length using Nat.strongRecOn generalizing bytes offset with
  | ind n ih =>
    cases bytes with
    | nil => exact ⟨[], [], [], rfl, rfl, rfl, rfl⟩
    | cons b rest =>
        cases hop : Opcode.ofByte? b with
        | none =>
            have hhead := hknown (offset, none) (by rw [Program.sweep, hop]; simp)
            simp at hhead
        | some op =>
            rw [Program.sweep_cons hop] at hknown ⊢
            obtain ⟨instructions, placed, chunks, hsweep, hlayout, hchunks, hflatten⟩ :=
              ih (rest.drop (mode.describe op).width).length
                (by rw [List.length_drop, ← hn, List.length_cons]; omega) _
                (fun entry hentry => hknown entry (List.mem_cons_of_mem _ hentry)) rfl
            obtain ⟨p, hp, hsize, he⟩ := emit_swept mode offset [] (Opcode.mem_all hop) rest
            have hmnemonic : (mode.describe op).mnemonic = op.mnemonic := by
              rw [Descriptor.mnemonic, OperandMode.opcode_describe]
            refine ⟨Program.instructionBefore mode offset op rest :: instructions, p :: placed,
              _ :: chunks, ?_, ?_, mapM_cons_eq_ok.2 ⟨_, _, he, hchunks, rfl⟩, ?_⟩
            · rw [hsweep]
              rfl
            · apply layout_instruction.2
              refine ⟨p, placed, ?_, ?_, rfl⟩
              · show place mode offset (mode.describe op).mnemonic _ = .ok p
                rw [hmnemonic]
                exact hp
              · rw [hsize, ← Nat.add_assoc]
                exact hlayout
            · rw [List.flatten_cons, hflatten, Opcode.toByte_of_ofByte? hop, List.cons_append,
                padded_append_drop, ← hn]
              rfl

/-- Every byte at a boundary is an opcode. -/
def Recognised (program : Program) : Prop :=
  ∀ pc b, program.isBoundary pc = true → program.code[pc]? = some b → program.mode.lookup b ≠ none

theorem Recognised.isSome {program : Program} (h : Recognised program)
    {entry : Nat × Option Instruction} (hentry : entry ∈ program.listing) :
    entry.2.isSome = true := by
  rw [Program.listing_eq_map] at hentry
  obtain ⟨pc, hpc, rfl⟩ := List.mem_map.1 hentry
  have hbound := Program.mem_boundaries.1 hpc
  obtain ⟨m, hm, hne⟩ := Program.isBoundary_iff.1 hbound
  obtain ⟨b, hb, -⟩ := Program.marks_behind hm hne
  have hlt : pc < program.length := (Array.getElem?_eq_some_iff.1 hb).1
  cases hop : Opcode.ofByte? b with
  | none => exact absurd (by rw [OperandMode.lookup, hop]; rfl) (h pc b hbound hb)
  | some op =>
      rw [(Program.decode_eq_ok_iff hlt).2 ⟨b, op, hb, hbound, hop, rfl⟩]
      rfl

theorem assemble_disassemble {code : List UInt8}
    (hknown : Recognised (.ofCode mode code.toArray)) :
    assemble mode ((disassemble (.ofCode mode code.toArray)).map ListingLine.toItem) =
      .ok (code ++ List.replicate
        (lacking code.length (Program.ofCode mode code.toArray).listing) 0) := by
  have hlisting := Program.listing_eq_sweep (.ofCode mode code.toArray)
  have hentries : ∀ entry ∈ Program.sweep mode 0 0 code, entry.2.isSome = true :=
    fun entry hentry => hknown.isSome (hlisting ▸ hentry)
  obtain ⟨instructions, placed, chunks, hsweep, hlayout, hchunks, hflatten⟩ :=
    assemble_swept code hentries
  have hinstructions := hlisting.trans hsweep
  rw [disassemble_of_listing hinstructions]
  apply assemble_eq_ok_iff.2
  refine ⟨[], placed, chunks, ?_, hchunks, ?_⟩
  · rw [List.map_map]
    exact hlayout
  · rw [hflatten, hlisting, Nat.zero_add]
    rfl

/-! ## The two are inverse to each other -/

theorem code_of_length_le {code : List UInt8} (h : code.length ≤ maxCodeSize) :
    (CodeInput.bytes code.toArray).code "code" = .ok code.toArray := by
  have hsize : ¬maxCodeSize < code.toArray.size := by
    rw [List.size_toArray]
    omega
  exact if_neg hsize

/-- Code that was assembled is listed as the items it came from, and a listing without unknown bytes
assembles to the listed code, filled up where its last immediate was cut short. -/
theorem assembling_inverts_listing (mode : OperandMode) :
    (∀ (items : List Item) (code : List UInt8), assemble mode items = .ok code →
      code.length ≤ maxCodeSize →
        (CodeInput.bytes code.toArray).code "code" = .ok code.toArray ∧
          Lists mode items (disassemble (.ofCode mode code.toArray))) ∧
    ∀ code : List UInt8, code.length ≤ maxCodeSize → Recognised (.ofCode mode code.toArray) →
      (CodeInput.bytes code.toArray).code "code" = .ok code.toArray ∧
        assemble mode ((disassemble (.ofCode mode code.toArray)).map ListingLine.toItem) =
          .ok (code ++ List.replicate
            (lacking code.length (Program.ofCode mode code.toArray).listing) 0) := by
  constructor
  · intro items code hassemble hlength
    exact ⟨code_of_length_le hlength, lists_of_assemble hassemble⟩
  · intro code hlength hknown
    exact ⟨code_of_length_le hlength, assemble_disassemble hknown⟩

namespace Sample

/-- A call of an entry further down, with the end of the code on the stack. -/
def calling : List Item :=
  [.instruction "push2" (some (.label "end")), .instruction "JumpSub" (some (.label "entry")),
    .label "back:", .instruction "STOP" none, .label "entry:", .instruction "BEGINSUB" none,
    .instruction "PUSH1" (some (.label "back")), .instruction "RETURNSUB" none, .label "end:"]

def calledCode : List UInt8 :=
  [0x61, 0, 12, 0x5D, 0, 0, 8, 0x00, 0x5C, 0x60, 7, 0x5E]

/-- An addition and a word of which one byte is there. -/
def truncated : List UInt8 :=
  [0x01, 0x62, 0x05]

theorem assemble_calling : assemble .immediate calling = .ok calledCode := by
  have hcode : (assemble .immediate calling).toOption = some calledCode := by decide +kernel
  cases hassemble : assemble .immediate calling with
  | ok code =>
      rw [hassemble] at hcode
      rw [Option.some.inj hcode]
  | error e =>
      rw [hassemble] at hcode
      cases hcode

theorem recognised_truncated : Recognised (.ofCode .stack truncated.toArray) := by
  intro pc b hbound hb
  match pc with
  | 0 =>
      cases hb
      decide
  | 1 =>
      cases hb
      decide
  | 2 => exact absurd hbound (by decide)
  | pc + 3 => cases hb

end Sample

theorem assembling_inverts_listing_calling :
    (assemble .immediate Sample.calling = .ok Sample.calledCode ∧
      Sample.calledCode.length ≤ maxCodeSize ∧
      Lists .immediate Sample.calling
        (disassemble (.ofCode .immediate Sample.calledCode.toArray))) ∧
    Recognised (.ofCode .stack Sample.truncated.toArray) ∧
      Sample.truncated.length ≤ maxCodeSize ∧
      assemble .stack ((disassemble (.ofCode .stack Sample.truncated.toArray)).map
        ListingLine.toItem) = .ok (Sample.truncated ++ [0, 0]) := by
  have hcalling := Sample.assemble_calling
  have htruncated := Sample.recognised_truncated
  refine ⟨⟨hcalling, by decide, ?_⟩, htruncated, by decide, ?_⟩
  · exact ((assembling_inverts_listing .immediate).1 _ _ hcalling (by decide)).2
  · exact ((assembling_inverts_listing .stack).2 _ (by decide) htruncated).2

end Assembler

end FlowCheck
