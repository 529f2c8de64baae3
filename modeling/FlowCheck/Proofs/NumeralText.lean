import FlowCheck.Proofs.HexText
import FlowCheck.Text.Numeral
import Mathlib

/-!
# Written integers

An integer is written in decimal, or in hexadecimal digits of either case behind a base mark.  Every
such text is read as the integer that it was written for, as long as its decimal digits are not too
many.  No text that starts with a letter or an underscore is read as an integer at all.
-/

namespace FlowCheck.Text

theorem toLower_of_le {c : Char} (h : 128 ≤ c.toNat) : c.toLower = c := by
  unfold Char.toLower
  rw [dif_neg]
  rintro ⟨-, hle⟩
  have hcapital : c.toNat ≤ 90 := hle
  omega

/-- A digit has the same value in lower case. -/
theorem Hex.digit?_toLower (c : Char) : Hex.digit? c.toLower = Hex.digit? c := by
  rcases Nat.lt_or_ge c.toNat 128 with hlt | hge
  · exact forall_ascii (P := fun c => Hex.digit? c.toLower = Hex.digit? c) (by decide +kernel) hlt
  · rw [toLower_of_le hge]

theorem toLower_eq_underscore_iff (c : Char) : c.toLower = '_' ↔ c = '_' := by
  rcases Nat.lt_or_ge c.toNat 128 with hlt | hge
  · exact forall_ascii (P := fun c => c.toLower = '_' ↔ c = '_') (by decide +kernel) hlt
  · rw [toLower_of_le hge]

namespace Numeral

variable {base value count n k : Nat} {owed : Bool} {c : Char} {cs ds : List Char}

/-! ## Reading digits -/

theorem readDigits_cons {d : Nat} (h : digitIn? base c = some d) :
    readDigits base value count owed (c :: cs) =
      readDigits base (base * value + d) (count + 1) false cs := by
  have hc : c ≠ '_' := by
    rintro rfl
    cases h
  simp [readDigits, hc, h]

/-- Reading goes on behind what is read. -/
theorem readDigits_append (h : readDigits base value count owed cs = some (n, k)) :
    readDigits base value count owed (cs ++ ds) = readDigits base n k false ds := by
  induction cs generalizing value count owed with
  | nil =>
      cases owed with
      | true => simp [readDigits] at h
      | false =>
          obtain ⟨rfl, rfl⟩ : value = n ∧ count = k := by simpa [readDigits] using h
          rfl
  | cons c cs ih =>
      rw [readDigits] at h
      rw [List.cons_append, readDigits]
      split
      · rename_i hunderscore
        rw [if_pos hunderscore] at h
        split at h
        · cases h
        · rename_i howed
          rw [if_neg howed, ih h]
      · rename_i hdigit
        rw [if_neg hdigit] at h
        cases hc : digitIn? base c with
        | none => simp [hc] at h
        | some d =>
            simp only [hc] at h ⊢
            exact ih h

theorem readDigits_map_toLower :
    readDigits base value count owed (cs.map Char.toLower) =
      readDigits base value count owed cs := by
  induction cs generalizing value count owed with
  | nil => rfl
  | cons c cs ih =>
      have hdigit : digitIn? base c.toLower = digitIn? base c := by
        rw [digitIn?, digitIn?, Hex.digit?_toLower]
      simp only [List.map_cons, readDigits, beq_iff_eq, toLower_eq_underscore_iff, hdigit, ih]

/-- Zeros in front change the count of digits and nothing else. -/
theorem readDigits_zeros (hbase : 0 < base) (zeros count : Nat) (owed : Bool)
    (h : ∀ count owed, readDigits base 0 count owed cs = some (n, count + k)) :
    readDigits base 0 count owed (List.replicate zeros '0' ++ cs) = some (n, count + zeros + k) := by
  induction zeros generalizing count owed with
  | zero => exact h count owed
  | succ zeros ih =>
      have hzero : digitIn? base '0' = some 0 := by simp [digitIn?, Hex.digit?, hbase]
      rw [List.replicate_succ, List.cons_append, readDigits_cons hzero, Nat.mul_zero, ih]
      rw [Nat.add_right_comm count 1, Nat.add_assoc count]

theorem digitIn?_digitChar (hn : n < base) (hbase : base ≤ 16) :
    digitIn? base n.digitChar = some n := by
  have hall : ∀ n < 16, Hex.digit? n.digitChar = some n := by decide
  rw [digitIn?, hall n (by omega)]
  simp [hn]

/-- The digits of a number are read as the number. -/
theorem readDigits_toDigits (hone : 1 < base) (hbase : base ≤ 16) (n count : Nat) (owed : Bool) :
    readDigits base 0 count owed (base.toDigits n) =
      some (n, count + (base.toDigits n).length) := by
  induction n using Nat.strongRecOn with
  | ind n ih =>
      rcases Nat.lt_or_ge n base with hlt | hge
      · rw [Nat.toDigits_of_lt_base hlt, readDigits_cons (digitIn?_digitChar hlt hbase)]
        simp [readDigits]
      · have hlast := digitIn?_digitChar (Nat.mod_lt n (by omega : 0 < base)) hbase
        rw [Nat.toDigits_of_base_le hone hge,
          readDigits_append (ih (n / base) (Nat.div_lt_self (by omega) hone)),
          readDigits_cons hlast, Nat.div_add_mod]
        simp [readDigits, Nat.add_assoc]

/-! ## Reading unsigned numbers -/

theorem isDecimalPart_of_isDigit (h : c.isDigit = true) : isDecimalPart c = true := by
  have hascii : c.toNat < 128 := by
    have hle : c.toNat ≤ 57 := (Char.isDigit_iff_toNat.1 h).2
    omega
  exact forall_ascii (P := fun c => c.isDigit = true → isDecimalPart c = true)
    (by decide +kernel) hascii h

/-- A number of few enough digits is read from its decimal digits. -/
theorem readDecimal_toDigits (base : Nat) (text : String)
    (hfew : (Nat.toDigits 10 n).length ≤ digitLimit) :
    readDecimal base text (Nat.toDigits 10 n) = .ok n := by
  have hparts : ∀ c ∈ Nat.toDigits 10 n, isDecimalPart c = true := fun c hc =>
    isDecimalPart_of_isDigit (Nat.isDigit_of_mem_toDigits (by decide) (by decide) hc)
  have htake := List.takeWhile_eq_self_iff.2 hparts
  have hdrop := List.dropWhile_eq_nil_iff.2 hparts
  have hread := readDigits_toDigits (by decide : 1 < 10) (by decide) n 0 true
  simp only [readDecimal, htake, hdrop, hread, Nat.zero_add]
  rw [if_neg (Nat.not_lt.2 hfew)]
  rfl

/-- The decimal digits of a positive number do not start with a zero. -/
theorem toDigits_head (hn : 0 < n) : ∃ c cs, Nat.toDigits 10 n = c :: cs ∧ c ≠ '0' := by
  induction n using Nat.strongRecOn with
  | ind n ih =>
      rcases Nat.lt_or_ge n 10 with hlt | hge
      · have hall : ∀ n < 10, 0 < n → n.digitChar ≠ '0' := by decide
        exact ⟨_, [], Nat.toDigits_of_lt_base hlt, hall n hlt hn⟩
      · obtain ⟨c, cs, hcs, hc⟩ := ih (n / 10) (by omega) (by omega)
        rw [Nat.toDigits_of_base_le (by decide) hge, hcs]
        exact ⟨c, _, rfl, hc⟩

/-- A text that does not start with a zero has no base mark. -/
theorem readLiteral_of_ne_zero (text : String) (h : c ≠ '0') :
    readLiteral text (c :: cs) = readDecimal 0 text (c :: cs) := by
  unfold readLiteral
  split <;> simp_all

theorem readLiteral_toDigits (text : String) (hfew : (Nat.toDigits 10 n).length ≤ digitLimit) :
    readLiteral text (Nat.toDigits 10 n) = .ok n := by
  rcases Nat.eq_zero_or_pos n with rfl | hpos
  · rfl
  · obtain ⟨c, cs, hcs, hc⟩ := toDigits_head hpos
    have hread := readDecimal_toDigits 0 text hfew
    rw [hcs] at hread ⊢
    rw [readLiteral_of_ne_zero text hc, hread]

theorem readMarked_of_readDigits {result : Nat × Nat}
    (h : readDigits base 0 0 true cs = some result) : readMarked base cs = some result := by
  unfold readMarked
  split
  · simp [readDigits] at h
  · exact h

/-- Hexadecimal digits of either case are read, whatever zeros come first. -/
theorem readDigits_hex (zeros : Nat) (hdigits : cs.map Char.toLower = Nat.toDigits 16 n) :
    readDigits 16 0 0 true (List.replicate zeros '0' ++ cs) =
      some (n, 0 + zeros + (Nat.toDigits 16 n).length) := by
  refine readDigits_zeros (by decide) zeros 0 true (fun count owed => ?_)
  rw [← readDigits_map_toLower, hdigits]
  exact readDigits_toDigits (by decide) (by decide) n count owed

theorem readLiteral_hex (text : String) (zeros : Nat)
    (hdigits : cs.map Char.toLower = Nat.toDigits 16 n) :
    readLiteral text ('0' :: 'x' :: (List.replicate zeros '0' ++ cs)) = .ok n := by
  simp only [readLiteral, readMarked_of_readDigits (readDigits_hex zeros hdigits)]

/-! ## Words -/

/-- A character of a written integer or of a name: an ASCII letter or digit, an underscore or a
minus sign. -/
def isWordChar (c : Char) : Bool :=
  c.isAlphanum || c == '_' || c == '-'

theorem toNat_lt_of_isWordChar (h : isWordChar c = true) : c.toNat < 128 := by
  simp only [isWordChar, Char.isAlphanum, Char.isAlpha, Char.isUpper, Char.isLower, Char.isDigit,
    Bool.or_eq_true, Bool.and_eq_true, decide_eq_true_eq, beq_iff_eq] at h
  rcases h with ((((⟨-, h⟩ | ⟨-, h⟩) | ⟨-, h⟩) | rfl) | rfl)
  · exact Nat.lt_of_le_of_lt h (by decide)
  · exact Nat.lt_of_le_of_lt h (by decide)
  · exact Nat.lt_of_le_of_lt h (by decide)
  · decide
  · decide

theorem dropWhile_isMargin (h : ∀ c ∈ cs, isMargin c = false) : cs.dropWhile isMargin = cs := by
  cases cs with
  | nil => rfl
  | cons c cs => exact List.dropWhile_cons_of_neg (by simp [h c])

/-- Whatever is read as digits is a word. -/
theorem isWordChar_of_readDigits {result : Nat × Nat}
    (h : readDigits base value count owed cs = some result) : ∀ c ∈ cs, isWordChar c = true := by
  induction cs generalizing value count owed with
  | nil => simp
  | cons c cs ih =>
      rw [readDigits] at h
      split at h
      · rename_i hunderscore
        obtain rfl := beq_iff_eq.1 hunderscore
        split at h
        · cases h
        · exact List.forall_mem_cons.2 ⟨by decide, ih h⟩
      · cases hc : digitIn? base c with
        | none => simp [hc] at h
        | some d =>
            simp only [hc] at h
            have hdigit : Hex.IsDigit c :=
              Hex.isDigit_of_digit? (Option.filter_eq_some_iff.1 hc).1
            exact List.forall_mem_cons.2 ⟨forall_ascii
              (P := fun c => Hex.IsDigit c → isWordChar c = true) (by decide +kernel)
              hdigit.toNat_lt hdigit, ih h⟩

/-- A word is looked at as it is. -/
theorem body_ofList (h : ∀ c ∈ cs, isWordChar c = true) : body (String.ofList cs) = cs := by
  have hplain : ∀ c ∈ cs, fold c = c ∧ isMargin c = false := fun c hc =>
    forall_ascii (P := fun c => isWordChar c = true → fold c = c ∧ isMargin c = false)
      (by decide +kernel) (toNat_lt_of_isWordChar (h c hc)) (h c hc)
  have hfold : cs.map fold = cs :=
    (List.map_congr_left fun c hc => (hplain c hc).1).trans (List.map_id cs)
  have hmargin : ∀ c ∈ cs, isMargin c = false := fun c hc => (hplain c hc).2
  simp only [body, String.toList_ofList, hfold, dropWhile_isMargin hmargin]
  rw [dropWhile_isMargin (by simpa using hmargin), List.reverse_reverse]

/-! ## Written integers -/

/-- What stands in front of the digits of an integer. -/
def signOf (n : Int) : List Char :=
  if n < 0 then ['-'] else []

/-- The texts of an integer: its decimal digits, if they are not too many, or its hexadecimal digits
in letters of either case, behind a base mark and any zeros. -/
inductive Writes (n : Int) : List Char → Prop
  | decimal (hfew : (Nat.toDigits 10 n.natAbs).length ≤ digitLimit) :
      Writes n (signOf n ++ Nat.toDigits 10 n.natAbs)
  | hexadecimal {digits : List Char} (zeros : Nat)
      (hdigits : digits.map Char.toLower = Nat.toDigits 16 n.natAbs) :
      Writes n (signOf n ++ '0' :: 'x' :: (List.replicate zeros '0' ++ digits))

/-- A text that starts with no sign is read as a whole. -/
theorem signed_cons {read : List Char → Except Error Nat} (hminus : c ≠ '-') (hplus : c ≠ '+') :
    signed read (c :: cs) = (read (c :: cs)).map (fun n => (n : Int)) := by
  unfold signed
  split <;> simp_all

/-- A sign is read with the digits behind it. -/
theorem signed_signOf {n : Int} {read : List Char → Except Error Nat}
    (hread : read (c :: cs) = .ok n.natAbs) (hc : c.isDigit = true) :
    signed read (signOf n ++ c :: cs) = .ok n := by
  unfold signOf
  split
  · show (read (c :: cs)).map (fun n => -(n : Int)) = .ok n
    have hneg : -(n.natAbs : Int) = n := by omega
    rw [hread]
    exact congrArg Except.ok hneg
  · have hpos : (n.natAbs : Int) = n := by omega
    have hminus : c ≠ '-' := by
      rintro rfl
      cases hc
    have hplus : c ≠ '+' := by
      rintro rfl
      cases hc
    rw [List.nil_append, signed_cons hminus hplus, hread]
    exact congrArg Except.ok hpos

theorem forall_mem_signOf (n : Int) : ∀ c ∈ signOf n, isWordChar c = true := by
  unfold signOf
  split
  · simp [isWordChar]
  · simp

theorem Writes.isWordChar {n : Int} {word : List Char} (h : Writes n word) :
    ∀ c ∈ word, isWordChar c = true := by
  cases h with
  | decimal hfew =>
      have hread := readDigits_toDigits (by decide : 1 < 10) (by decide) n.natAbs 0 true
      exact List.forall_mem_append.2 ⟨forall_mem_signOf n, isWordChar_of_readDigits hread⟩
  | hexadecimal zeros hdigits =>
      have hread := isWordChar_of_readDigits (readDigits_hex zeros hdigits)
      refine List.forall_mem_append.2 ⟨forall_mem_signOf n, ?_⟩
      exact List.forall_mem_cons.2 ⟨by decide, List.forall_mem_cons.2 ⟨by decide, hread⟩⟩

theorem Writes.ne_nil {n : Int} {word : List Char} (h : Writes n word) : word ≠ [] := by
  cases h with
  | decimal hfew => exact List.append_ne_nil_of_right_ne_nil _ Nat.toDigits_ne_nil
  | hexadecimal zeros hdigits => exact List.append_ne_nil_of_right_ne_nil _ (List.cons_ne_nil _ _)

/-- The digits of a number are in lower case. -/
theorem map_toLower_toDigits (n : Nat) :
    (Nat.toDigits 16 n).map Char.toLower = Nat.toDigits 16 n := by
  have hdigit : ∀ d < 16, (Nat.digitChar d).toLower = Nat.digitChar d := by decide
  induction n using Nat.strong_induction_on with
  | _ n ih =>
      rcases Nat.lt_or_ge n 16 with hlt | hge
      · simp [Nat.toDigits_of_lt_base hlt, hdigit n hlt]
      · have hless : n / 16 < n := Nat.div_lt_self (by omega) (by decide)
        have hlast : n % 16 < 16 := Nat.mod_lt n (by decide)
        simp [Nat.toDigits_of_base_le (by decide) hge, ih _ hless, hdigit _ hlast]

/-- Every integer has a text. -/
theorem exists_writes (n : Int) : ∃ word, Writes n word :=
  ⟨_, .hexadecimal 0 (map_toLower_toDigits n.natAbs)⟩

/-- Every text of an integer is read as that integer. -/
theorem literal_of_writes {n : Int} {word : List Char} (h : Writes n word) :
    literal (String.ofList word) = .ok n := by
  rw [literal, body_ofList h.isWordChar]
  -- the error of a failed read quotes the whole word
  generalize String.ofList word = text
  cases h with
  | decimal hfew =>
      obtain ⟨c, cs, hcs⟩ :=
        List.exists_cons_of_ne_nil (Nat.toDigits_ne_nil (b := 10) (n := n.natAbs))
      have hread := readLiteral_toDigits text hfew
      have hc : c.isDigit = true :=
        Nat.isDigit_of_mem_toDigits (by decide) (by decide) (hcs ▸ List.mem_cons_self)
      rw [hcs] at hread ⊢
      exact signed_signOf hread hc
  | hexadecimal zeros hdigits =>
      exact signed_signOf (readLiteral_hex _ zeros hdigits) (by decide)

/-! ## Words that are no numbers -/

theorem readDecimal_of_digitIn?_eq_none (text : String) (h : digitIn? 10 c = none) :
    readDecimal base text (c :: cs) = .error (.malformed base text) := by
  have hread : readDigits 10 0 0 true ((c :: cs).takeWhile isDecimalPart) = none := by
    by_cases hunderscore : c = '_'
    · simp [isDecimalPart, hunderscore, readDigits]
    · simp [isDecimalPart, hunderscore, h, readDigits]
  simp only [readDecimal, hread]

/-- A word that starts with a letter or an underscore is no literal. -/
theorem literal_of_letter (hc : c.isAlpha = true ∨ c = '_')
    (h : ∀ d ∈ c :: cs, isWordChar d = true) :
    literal (String.ofList (c :: cs)) = .error (.malformed 0 (String.ofList (c :: cs))) := by
  obtain ⟨hminus, hplus, hzero, hdigit⟩ : c ≠ '-' ∧ c ≠ '+' ∧ c ≠ '0' ∧ digitIn? 10 c = none :=
    forall_ascii (P := fun c => c.isAlpha = true ∨ c = '_' →
        c ≠ '-' ∧ c ≠ '+' ∧ c ≠ '0' ∧ digitIn? 10 c = none)
      (by decide +kernel) (toNat_lt_of_isWordChar (h c List.mem_cons_self)) hc
  rw [literal, body_ofList h, signed_cons hminus hplus, readLiteral_of_ne_zero _ hzero,
    readDecimal_of_digitIn?_eq_none _ hdigit]
  rfl

end Numeral

end FlowCheck.Text
