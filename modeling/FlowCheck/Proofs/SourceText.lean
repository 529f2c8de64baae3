import FlowCheck.Assembler.Source
import FlowCheck.Proofs.LineText
import FlowCheck.Proofs.NumeralText
import Mathlib

/-!
# Written programs

The written forms of a program: one item a line, between blanks and in front of a comment, and any
number of lines in between that hold no item.  Reading a written form gives back the items that it
was written for (`WrittenText.parseLines_eq`), and a list has a written form exactly if each of its
items has one (`exists_writtenText_iff`).
-/

namespace FlowCheck.Assembler

open Text

/-! ## Written forms -/

/-- A name: a letter or an underscore, and letters, digits and underscores behind it. -/
def IsName : List Char → Prop
  | [] => False
  | c :: cs => isNameStart c = true ∧ ∀ d ∈ cs, isNamePart d = true

/-- The text of a mnemonic: letters and digits. -/
def IsToken (cs : List Char) : Prop :=
  cs ≠ [] ∧ ∀ c ∈ cs, c.isAlphanum = true

/-- Blanks that end no line, as spaces and tabs are. -/
def IsSpacing (cs : List Char) : Prop :=
  AllBlank cs ∧ OnOneLine cs

/-- What may stand at the end of a line: nothing, or a comment. -/
def IsRemark : List Char → Prop
  | [] => True
  | c :: cs => isComment c = true ∧ OnOneLine cs

/-- The written forms of an operand. -/
inductive WrittenOperand : Operand → List Char → Prop
  | number {n : Int} {word : List Char} (hword : Numeral.Writes n word) :
      WrittenOperand (.number n) word
  | reference {name : List Char} (hname : IsName name) :
      WrittenOperand (.label (String.ofList name)) name

/-- The written forms of an item. -/
inductive WrittenItem : Item → List Char → Prop
  | label {name : List Char} (hname : IsName name) :
      WrittenItem (.label (String.ofList (name ++ [':']))) (name ++ [':'])
  | bare {mnemonic : List Char} (hmnemonic : IsToken mnemonic) :
      WrittenItem (.instruction (String.ofList mnemonic) none) mnemonic
  | applied {mnemonic gap word : List Char} {operand : Operand} (hmnemonic : IsToken mnemonic)
      (hgap : gap ≠ []) (hspacing : IsSpacing gap) (hword : WrittenOperand operand word) :
      WrittenItem (.instruction (String.ofList mnemonic) (some operand)) (mnemonic ++ gap ++ word)

/-- The lines that hold an item, or none. -/
inductive WrittenLine : Option Item → List Char → Prop
  | blank {space remark : List Char} (hspace : IsSpacing space) (hremark : IsRemark remark) :
      WrittenLine none (space ++ remark)
  | item {item : Item} {lead core trail remark : List Char} (hlead : IsSpacing lead)
      (hcore : WrittenItem item core) (htrail : IsSpacing trail) (hremark : IsRemark remark) :
      WrittenLine (some item) (lead ++ core ++ trail ++ remark)

/-- The texts whose lines hold the items of a list, in order. -/
inductive WrittenText : List Item → List Char → Prop
  | last {item : Option Item} {line : List Char} (hline : WrittenLine item line) :
      WrittenText item.toList line
  | more {item : Option Item} {items : List Item} {line gap rest : List Char}
      (hline : WrittenLine item line) (hgap : IsBreak gap) (hrest : WrittenText items rest) :
      WrittenText (item.toList ++ items) (line ++ gap ++ rest)

/-! ## The characters of written forms -/

/-- A word: at least one character, and none that would end it. -/
def IsWord (cs : List Char) : Prop :=
  cs ≠ [] ∧ ∀ c ∈ cs, Numeral.isWordChar c = true

theorem IsName.isWord {name : List Char} (h : IsName name) : IsWord name := by
  cases name with
  | nil => exact h.elim
  | cons c cs =>
      obtain ⟨hc, hcs⟩ := h
      have hstart : Numeral.isWordChar c = true := by
        simp only [isNameStart, Numeral.isWordChar, Char.isAlphanum, Bool.or_eq_true] at hc ⊢
        tauto
      have hpart : ∀ d ∈ cs, Numeral.isWordChar d = true := by
        intro d hd
        have hd' := hcs d hd
        simp only [isNamePart, Numeral.isWordChar, Bool.or_eq_true] at hd' ⊢
        tauto
      exact ⟨List.cons_ne_nil c cs, List.forall_mem_cons.2 ⟨hstart, hpart⟩⟩

theorem IsToken.isWord {cs : List Char} (h : IsToken cs) : IsWord cs :=
  ⟨h.1, fun c hc => by simp [Numeral.isWordChar, h.2 c hc]⟩

theorem WrittenOperand.isWord {operand : Operand} {word : List Char}
    (h : WrittenOperand operand word) : IsWord word := by
  cases h with
  | number hword => exact ⟨hword.ne_nil, hword.isWordChar⟩
  | reference hname => exact hname.isWord

theorem isWordChar_cases {c : Char} (h : Numeral.isWordChar c = true) :
    isBlank c = false ∧ isComment c = false ∧ isLineEnd c = false ∧ c ≠ ':' :=
  forall_ascii (P := fun c => Numeral.isWordChar c = true →
      isBlank c = false ∧ isComment c = false ∧ isLineEnd c = false ∧ c ≠ ':')
    (by decide +kernel) (Numeral.toNat_lt_of_isWordChar h) h

theorem IsWord.noneBlank {cs : List Char} (h : IsWord cs) : NoneBlank cs :=
  fun c hc => (isWordChar_cases (h.2 c hc)).1

theorem isComment_of_isBlank {c : Char} (h : isBlank c = true) : isComment c = false := by
  have hsemicolon : c ≠ ';' := by
    rintro rfl
    cases h
  have hhash : c ≠ '#' := by
    rintro rfl
    cases h
  simp [isComment, hsemicolon, hhash]

/-- What stands in front of a comment: no character that starts one and none that ends a line. -/
def IsCode (cs : List Char) : Prop :=
  ∀ c ∈ cs, isComment c = false ∧ isLineEnd c = false

theorem IsCode.append {cs ds : List Char} (hcs : IsCode cs) (hds : IsCode ds) : IsCode (cs ++ ds) :=
  List.forall_mem_append.2 ⟨hcs, hds⟩

theorem IsWord.isCode {cs : List Char} (h : IsWord cs) : IsCode cs := fun c hc =>
  have hc := isWordChar_cases (h.2 c hc)
  ⟨hc.2.1, hc.2.2.1⟩

theorem IsSpacing.isCode {cs : List Char} (h : IsSpacing cs) : IsCode cs := fun c hc =>
  ⟨isComment_of_isBlank (h.1 c hc), h.2 c hc⟩

theorem WrittenItem.isCode {item : Item} {core : List Char} (h : WrittenItem item core) :
    IsCode core := by
  cases h with
  | label hname => exact hname.isWord.isCode.append (by simp [IsCode, isComment, isLineEnd])
  | bare hmnemonic => exact hmnemonic.isWord.isCode
  | applied hmnemonic hgap hspacing hword =>
      exact (hmnemonic.isWord.isCode.append hspacing.isCode).append hword.isWord.isCode

theorem WrittenItem.isCode_between {item : Item} {lead core trail : List Char}
    (hcore : WrittenItem item core) (hlead : IsSpacing lead) (htrail : IsSpacing trail) :
    IsCode (lead ++ core ++ trail) :=
  (hlead.isCode.append hcore.isCode).append htrail.isCode

/-- An item starts and ends with characters that are kept when a line is trimmed. -/
theorem WrittenItem.ends {item : Item} {core : List Char} (h : WrittenItem item core) :
    ∃ hcore : core ≠ [], isBlank (core.head hcore) = false ∧
      isBlank (core.getLast hcore) = false := by
  cases h with
  | label hname =>
      obtain ⟨hne, -⟩ := hname.isWord
      refine ⟨by simp, ?_, by simp [isBlank]⟩
      rw [List.head_append_of_ne_nil hne]
      exact hname.isWord.noneBlank _ (List.head_mem hne)
  | bare hmnemonic =>
      have hnone := hmnemonic.isWord.noneBlank
      exact ⟨hmnemonic.1, hnone _ (List.head_mem _), hnone _ (List.getLast_mem _)⟩
  | applied hmnemonic hgap hspacing hword =>
      obtain ⟨hne, -⟩ := hword.isWord
      refine ⟨by simp [hne], ?_, ?_⟩
      · rw [List.head_append_of_ne_nil (by simp [hgap]), List.head_append_of_ne_nil hmnemonic.1]
        exact hmnemonic.isWord.noneBlank _ (List.head_mem _)
      · rw [List.getLast_append_of_ne_nil _ hne]
        exact hword.isWord.noneBlank _ (List.getLast_mem _)

/-! ## Reading a line -/

/-- A comment is cut off. -/
theorem takeWhile_remark {code remark : List Char} (hcode : IsCode code)
    (hremark : IsRemark remark) :
    (code ++ remark).takeWhile (fun c => !isComment c) = code := by
  rw [List.takeWhile_append_of_pos (fun c hc => by simp [(hcode c hc).1])]
  cases remark with
  | nil => simp
  | cons c cs => simp [hremark.1]

/-- A text that ends with a word is no label. -/
theorem getLast?_beq_colon (cs : List Char) {word : List Char} (hword : IsWord word) :
    ((cs ++ word).getLast? == some ':') = false := by
  obtain ⟨hne, hchars⟩ := hword
  rw [List.getLast?_append_of_ne_nil _ hne, List.getLast?_eq_some_getLast hne, beq_eq_false_iff_ne]
  intro hcolon
  exact (isWordChar_cases (hchars _ (List.getLast_mem hne))).2.2.2 (Option.some.inj hcolon)

/-- A name is read as the name of a label, never as a number. -/
theorem operandOf_of_isName {name : List Char} (h : IsName name) :
    operandOf (String.ofList name) = .label (String.ofList name) := by
  have hword := h.isWord
  cases name with
  | nil => exact h.elim
  | cons c cs =>
      have hc : c.isAlpha = true ∨ c = '_' := by simpa [isNameStart] using h.1
      simp only [operandOf, Numeral.literal_of_letter hc hword.2]

theorem WrittenOperand.operandOf_eq {operand : Operand} {word : List Char}
    (h : WrittenOperand operand word) : operandOf (String.ofList word) = operand := by
  cases h with
  | number hword => simp only [operandOf, Numeral.literal_of_writes hword]
  | reference hname => exact operandOf_of_isName hname

/-- Every line is read as the item that it holds. -/
theorem WrittenLine.parseLine_eq {item : Option Item} {line : List Char}
    (h : WrittenLine item line) (number : Nat) : parseLine number line = .ok item := by
  cases h with
  | blank hspace hremark =>
      simp [parseLine, takeWhile_remark hspace.isCode hremark, trim_of_allBlank hspace.1]
  | @item item lead core trail remark hlead hcore htrail hremark =>
      obtain ⟨hne, hfirst, hlast⟩ := hcore.ends
      have hcode := hcore.isCode_between hlead htrail
      have hempty : core.isEmpty = false := List.isEmpty_eq_false_iff.2 hne
      simp only [parseLine, takeWhile_remark hcode hremark,
        trim_append hlead.1 htrail.1 hne hfirst hlast, hempty, Bool.false_eq_true, if_false]
      cases hcore with
      | label hname => simp
      | bare hmnemonic =>
          have hcolon : (core.getLast? == some ':') = false :=
            getLast?_beq_colon [] hmnemonic.isWord
          simp only [hcolon, Bool.false_eq_true, if_false,
            words_of_noneBlank hne hmnemonic.isWord.noneBlank]
      | @applied mnemonic gap word operand hmnemonic hgap hspacing hword =>
          have hwords : words (mnemonic ++ gap ++ word) = [mnemonic, word] := by
            rw [words_append hmnemonic.1 hmnemonic.isWord.noneBlank hgap hspacing.1,
              words_of_noneBlank hword.isWord.1 hword.isWord.noneBlank]
          simp only [getLast?_beq_colon _ hword.isWord, Bool.false_eq_true, if_false, hwords,
            hword.operandOf_eq]

/-! ## Reading a text -/

theorem isLineEnd_of_isComment {c : Char} (h : isComment c = true) : isLineEnd c = false := by
  obtain rfl | rfl : c = ';' ∨ c = '#' := by simpa [isComment] using h
  · rfl
  · rfl

theorem IsCode.onOneLine_append {code remark : List Char} (hcode : IsCode code)
    (hremark : IsRemark remark) : OnOneLine (code ++ remark) := by
  refine List.forall_mem_append.2 ⟨fun c hc => (hcode c hc).2, ?_⟩
  cases remark with
  | nil => simp
  | cons c cs => exact List.forall_mem_cons.2 ⟨isLineEnd_of_isComment hremark.1, hremark.2⟩

theorem WrittenLine.onOneLine {item : Option Item} {line : List Char} (h : WrittenLine item line) :
    OnOneLine line := by
  cases h with
  | blank hspace hremark => exact hspace.isCode.onOneLine_append hremark
  | item hlead hcore htrail hremark =>
      exact (hcore.isCode_between hlead htrail).onOneLine_append hremark

theorem parseLines_cons {number : Nat} {line : List Char} {rest : List (List Char)}
    {item : Option Item} {items : List Item} (hline : parseLine number line = .ok item)
    (hrest : parseLines (number + 1) rest = .ok items) :
    parseLines number (line :: rest) = .ok (item.toList ++ items) := by
  simp [parseLines, hline, hrest]

/-- An empty line holds no item. -/
theorem parseLines_nil_cons (number : Nat) (rest : List (List Char)) :
    parseLines number ([] :: rest) = parseLines (number + 1) rest := by
  have hline : parseLine number [] = .ok none := rfl
  cases hrest : parseLines (number + 1) rest with
  | error e => simp [parseLines, hline, hrest]
  | ok items => exact parseLines_cons hline hrest

/-- Reading a written program gives back its items, from whatever line number on. -/
theorem WrittenText.parseLines_eq {items : List Item} {text : List Char}
    (h : WrittenText items text) (number : Nat) : parseLines number (lines text) = .ok items := by
  induction h generalizing number with
  | @last item line hline =>
      have hread := hline.parseLine_eq number
      rw [lines_of_onOneLine hline.onOneLine]
      cases line with
      | nil =>
          -- a text that ends with a break has no line behind it, and nothing stood there
          obtain rfl : none = item := Except.ok.inj hread
          rfl
      | cons c cs => exact (parseLines_cons hread rfl).trans (by rw [List.append_nil])
  | @more item items line gap rest hline hgap hrest ih =>
      obtain ⟨more, hlines, hmore⟩ := exists_lines_append rest hline.onOneLine hgap
      rw [hlines]
      refine parseLines_cons (hline.parseLine_eq number) ?_
      rcases hmore with hmore | hmore
      · exact hmore ▸ ih (number + 1)
      · -- the line that is lost in the break held no item, so the lines behind it hold them all
        have hlost := ih number
        rwa [hmore, parseLines_nil_cons] at hlost

/-! ## What can be written -/

/-- The items that have a written form.  Every number has one, if need be in hexadecimal. -/
def IsWritable : Item → Prop
  | .label text => ∃ name, IsName name ∧ text.toList = name ++ [':']
  | .instruction mnemonic none => IsToken mnemonic.toList
  | .instruction mnemonic (some (.number _)) => IsToken mnemonic.toList
  | .instruction mnemonic (some (.label name)) => IsToken mnemonic.toList ∧ IsName name.toList
  | .instruction _ (some (.data _)) => False
  | .misshapen _ => False

theorem isSpacing_nil : IsSpacing [] :=
  ⟨by simp [AllBlank], by simp [OnOneLine]⟩

theorem isSpacing_singleton {c : Char} (h : isBlank c = true ∧ isLineEnd c = false) :
    IsSpacing [c] :=
  ⟨by simp [AllBlank, h], by simp [OnOneLine, h]⟩

/-- One blank parts a mnemonic from its operand. -/
theorem exists_writtenItem_of_operand {mnemonic : String} {operand : Operand} {word : List Char}
    (hmnemonic : IsToken mnemonic.toList) (hword : WrittenOperand operand word) :
    ∃ core, WrittenItem (.instruction mnemonic (some operand)) core := by
  have hspacing : IsSpacing [' '] := isSpacing_singleton (by decide)
  have happlied := WrittenItem.applied hmnemonic (List.cons_ne_nil _ _) hspacing hword
  rw [String.ofList_toList] at happlied
  exact ⟨_, happlied⟩

theorem exists_writtenItem_iff (item : Item) :
    (∃ core, WrittenItem item core) ↔ IsWritable item := by
  constructor
  · rintro ⟨core, hcore⟩
    cases hcore with
    | label hname => exact ⟨_, hname, String.toList_ofList⟩
    | bare hmnemonic => simpa [IsWritable] using hmnemonic
    | applied hmnemonic hgap hspacing hword =>
        cases hword with
        | number hword => simpa [IsWritable] using hmnemonic
        | reference hname => simpa [IsWritable] using ⟨hmnemonic, hname⟩
  · intro hitem
    match item, hitem with
    | .label text, ⟨name, hname, htext⟩ =>
        have hlabel := WrittenItem.label hname
        rw [← htext, String.ofList_toList] at hlabel
        exact ⟨_, hlabel⟩
    | .instruction mnemonic none, hmnemonic =>
        have hbare := WrittenItem.bare hmnemonic
        rw [String.ofList_toList] at hbare
        exact ⟨_, hbare⟩
    | .instruction mnemonic (some (.number n)), hmnemonic =>
        obtain ⟨word, hword⟩ := Numeral.exists_writes n
        exact exists_writtenItem_of_operand hmnemonic (.number hword)
    | .instruction mnemonic (some (.label name)), ⟨hmnemonic, hname⟩ =>
        have hreference := WrittenOperand.reference hname
        rw [String.ofList_toList] at hreference
        exact exists_writtenItem_of_operand hmnemonic hreference

theorem WrittenLine.isWritable {item : Option Item} {line : List Char} (h : WrittenLine item line) :
    ∀ i ∈ item.toList, IsWritable i := by
  cases h with
  | blank hspace hremark => simp
  | item hlead hcore htrail hremark => simpa using (exists_writtenItem_iff _).1 ⟨_, hcore⟩

/-- The lists that can be written are those whose items can. -/
theorem exists_writtenText_iff (items : List Item) :
    (∃ text, WrittenText items text) ↔ ∀ item ∈ items, IsWritable item := by
  have hremark : IsRemark [] := trivial
  constructor
  · rintro ⟨text, htext⟩
    induction htext with
    | last hline => exact hline.isWritable
    | more hline hgap hrest ih => exact List.forall_mem_append.2 ⟨hline.isWritable, ih⟩
  · intro hitems
    induction items with
    | nil => exact ⟨_, .last (.blank isSpacing_nil hremark)⟩
    | cons item items ih =>
        obtain ⟨hitem, hmore⟩ := List.forall_mem_cons.1 hitems
        obtain ⟨core, hcore⟩ := (exists_writtenItem_iff item).2 hitem
        obtain ⟨rest, hrest⟩ := ih hmore
        have hfeed : isLineEnd '\n' = true := by decide
        exact ⟨_, .more (.item isSpacing_nil hcore isSpacing_nil hremark) (.single hfeed) hrest⟩

/-- Reading undoes writing.  Every written form of a list of items is read as that list, whatever
blanks, comments and empty lines it has.  The lists that have a written form are those of labels
with a proper name and of instructions that have no operand, a number or a proper name.  A name is
never read as a number. -/
theorem parse_of_written :
    (∀ (items : List Item) (source : String), WrittenText items source.toList →
      parse source = .ok items) ∧
    (∀ items : List Item, (∃ text, WrittenText items text) ↔ ∀ item ∈ items, IsWritable item) ∧
    ∀ name : List Char, IsName name →
      operandOf (String.ofList name) = .label (String.ofList name) :=
  ⟨fun _ _ htext => htext.parseLines_eq 1, exists_writtenText_iff, fun _ => operandOf_of_isName⟩

/-- A label with a comment, a negative hexadecimal number, an empty line and a jump back to the
label. -/
theorem parse_of_written_loop :
    parse "loop: ; again\n\tPUSH1 -0x1F\r\n\nJUMP\tloop" =
        .ok [.label "loop:", .instruction "PUSH1" (some (.number (-31))),
          .instruction "JUMP" (some (.label "loop"))] ∧
      operandOf "loop" = .label "loop" := by
  have hspacing : IsSpacing [' '] ∧ IsSpacing ['\t'] :=
    ⟨isSpacing_singleton (by decide), isSpacing_singleton (by decide)⟩
  have hfeed : IsBreak ['\n'] := .single (by decide)
  have hbare : IsRemark [] := trivial
  have hremark : IsRemark [';', ' ', 'a', 'g', 'a', 'i', 'n'] :=
    ⟨by decide, by simp [OnOneLine, isLineEnd]⟩
  have hname : IsName ['l', 'o', 'o', 'p'] := ⟨by decide, by simp [isNamePart]⟩
  have hpush : IsToken ['P', 'U', 'S', 'H', '1'] := ⟨by simp, by simp⟩
  have hjump : IsToken ['J', 'U', 'M', 'P'] := ⟨by simp, by simp⟩
  have hnumber : Numeral.Writes (-31) ['-', '0', 'x', '1', 'F'] := .hexadecimal 0 (by decide)
  have hfirst := WrittenLine.item isSpacing_nil (.label hname) hspacing.1 hremark
  have hsecond := WrittenLine.item hspacing.2
    (.applied hpush (List.cons_ne_nil _ _) hspacing.1 (.number hnumber)) isSpacing_nil hbare
  have hthird := WrittenLine.blank isSpacing_nil hbare
  have hlast := WrittenLine.item isSpacing_nil
    (.applied hjump (List.cons_ne_nil _ _) hspacing.2 (.reference hname)) isSpacing_nil hbare
  obtain ⟨hparse, -, hreference⟩ := parse_of_written
  exact ⟨hparse _ _ (.more hfirst hfeed (.more hsecond .pair (.more hthird hfeed (.last hlast)))),
    hreference _ hname⟩

end FlowCheck.Assembler
