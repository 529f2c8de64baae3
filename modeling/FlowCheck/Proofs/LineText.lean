import FlowCheck.Text.Blank
import FlowCheck.Text.Line
import Mathlib

/-!
# Words and lines of composed texts

What trimming and splitting do to a text that is put together from words, blanks and line breaks:
trimming gives back what stands between the blanks, splitting gives back the words, and the lines of
a text are its first line and the lines behind the break.
-/

namespace FlowCheck.Text

/-! ## Trimming -/

/-- Characters that are all blank. -/
def AllBlank (cs : List Char) : Prop :=
  ∀ c ∈ cs, isBlank c = true

/-- Characters none of which is blank. -/
def NoneBlank (cs : List Char) : Prop :=
  ∀ c ∈ cs, isBlank c = false

theorem trim_of_allBlank {cs : List Char} (h : AllBlank cs) : trim cs = [] := by
  have hstart : cs.dropWhile isBlank = [] := List.dropWhile_eq_nil_iff.2 h
  simp [trim, trimStart, trimEnd, hstart]

/-- A text that starts and ends with no blank is what is left of it between blanks. -/
theorem trim_append {lead core trail : List Char} (hlead : AllBlank lead) (htrail : AllBlank trail)
    (hcore : core ≠ []) (hfirst : isBlank (core.head hcore) = false)
    (hlast : isBlank (core.getLast hcore) = false) : trim (lead ++ core ++ trail) = core := by
  have hstart : trimStart (lead ++ core ++ trail) = core ++ trail := by
    rw [trimStart, List.append_assoc, List.dropWhile_append_of_pos hlead]
    obtain ⟨c, cs, rfl⟩ := List.exists_cons_of_ne_nil hcore
    exact List.dropWhile_cons_of_neg (by simpa using hfirst)
  have htrailing : AllBlank trail.reverse := fun c hc => htrail c (List.mem_reverse.1 hc)
  -- the end of the text is the start of its reverse
  rw [trim, hstart, trimEnd, List.reverse_append, List.dropWhile_append_of_pos htrailing]
  have hkept : core.reverse.dropWhile isBlank = core.reverse := by
    rw [← List.dropLast_append_getLast hcore, List.reverse_append]
    exact List.dropWhile_cons_of_neg (by simpa using hlast)
  rw [hkept, List.reverse_reverse]

/-! ## Words -/

/-- Characters that are not blank go to the word at hand. -/
theorem wordsFrom_append {cs rest word : List Char} (h : NoneBlank cs) :
    wordsFrom (cs ++ rest) word = wordsFrom rest (cs.reverse ++ word) := by
  induction cs generalizing word with
  | nil => rfl
  | cons c cs ih =>
      obtain ⟨hc, hcs⟩ := List.forall_mem_cons.1 h
      simp [wordsFrom, hc, ih hcs]

theorem wordsFrom_allBlank {blanks rest : List Char} (h : AllBlank blanks) :
    wordsFrom (blanks ++ rest) [] = wordsFrom rest [] := by
  induction blanks with
  | nil => rfl
  | cons c cs ih =>
      obtain ⟨hc, hcs⟩ := List.forall_mem_cons.1 h
      simp [wordsFrom, hc, ih hcs]

theorem words_of_noneBlank {word : List Char} (hne : word ≠ []) (h : NoneBlank word) :
    words word = [word] := by
  have hfrom : wordsFrom (word ++ []) [] = wordsFrom [] (word.reverse ++ []) := wordsFrom_append h
  rw [List.append_nil] at hfrom
  simp [words, hfrom, wordsFrom, hne]

/-- Blanks end a word. -/
theorem words_append {word gap rest : List Char} (hword : word ≠ []) (hnone : NoneBlank word)
    (hgap : gap ≠ []) (hall : AllBlank gap) :
    words (word ++ gap ++ rest) = word :: words rest := by
  obtain ⟨c, gap, rfl⟩ := List.exists_cons_of_ne_nil hgap
  obtain ⟨hc, hmore⟩ := List.forall_mem_cons.1 hall
  rw [words, List.append_assoc, wordsFrom_append hnone]
  simp [wordsFrom, hc, hword, wordsFrom_allBlank hmore, words]

/-! ## Lines -/

/-- Characters none of which ends a line. -/
def OnOneLine (cs : List Char) : Prop :=
  ∀ c ∈ cs, isLineEnd c = false

/-- What stands between two lines: a character that ends a line, or a carriage return and a line
feed. -/
inductive IsBreak : List Char → Prop
  | single {c : Char} (hc : isLineEnd c = true) : IsBreak [c]
  | pair : IsBreak ['\r', '\n']

theorem linesFrom_cons {c : Char} {cs line : List Char} (hpair : c = '\r' → cs.head? ≠ some '\n') :
    linesFrom (c :: cs) line =
      if isLineEnd c then line.reverse :: linesFrom cs [] else linesFrom cs (c :: line) := by
  rw [linesFrom.eq_3]
  rintro rest rfl rfl
  exact hpair rfl rfl

/-- Characters that end no line go to the line at hand. -/
theorem linesFrom_append {cs rest line : List Char} (h : OnOneLine cs) :
    linesFrom (cs ++ rest) line = linesFrom rest (cs.reverse ++ line) := by
  induction cs generalizing line with
  | nil => rfl
  | cons c cs ih =>
      obtain ⟨hc, hcs⟩ := List.forall_mem_cons.1 h
      have hreturn : c ≠ '\r' := by
        rintro rfl
        cases hc
      rw [List.cons_append, linesFrom_cons (fun h => absurd h hreturn), hc]
      simp [ih hcs]

/-- A text without a line end is one line, or none if it is empty. -/
theorem lines_of_onOneLine {line : List Char} (h : OnOneLine line) :
    lines line = if line.isEmpty then [] else [line] := by
  have hfrom : linesFrom (line ++ []) [] = linesFrom [] (line.reverse ++ []) := linesFrom_append h
  rw [List.append_nil] at hfrom
  simp [lines, hfrom, linesFrom]

/-- Behind its first line and a break, a text has the lines of the rest.  Only if the break is a
carriage return and the rest starts with a line feed, the two are one break, and the empty line
between them is lost. -/
theorem exists_lines_append (rest : List Char) {line gap : List Char} (hline : OnOneLine line)
    (hgap : IsBreak gap) :
    ∃ more, lines (line ++ gap ++ rest) = line :: more ∧
      (lines rest = more ∨ lines rest = [] :: more) := by
  rw [lines, List.append_assoc, linesFrom_append hline]
  cases hgap with
  | pair => exact ⟨lines rest, by simp [linesFrom, lines], .inl rfl⟩
  | @single c hc =>
      by_cases hpair : c = '\r' ∧ rest.head? = some '\n'
      · obtain ⟨rfl, hfeed⟩ := hpair
        obtain ⟨rest, rfl⟩ := List.head?_eq_some_iff.1 hfeed
        exact ⟨lines rest, by simp [linesFrom, lines], .inr (by simp [lines, linesFrom, isLineEnd])⟩
      · refine ⟨lines rest, ?_, .inl rfl⟩
        rw [List.singleton_append, linesFrom_cons (fun hreturn hfeed => hpair ⟨hreturn, hfeed⟩)]
        simp [hc, lines]

end FlowCheck.Text
