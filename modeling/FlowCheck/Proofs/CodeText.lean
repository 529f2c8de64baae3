import FlowCheck.Proofs.HexText
import Mathlib

/-!
# Code in hexadecimal text

Reading accepts exactly the grammar of hexadecimal text, within the largest code size, and yields
the bytes that the digits denote.  Blanks may stand anywhere, also inside the prefix and between the
two digits of a byte, so whatever blanks are put into the digits of bytes, the bytes come back.
-/

namespace FlowCheck.Text.Hex

variable {cs : List Char} {bs : Array UInt8}

theorem digit_injOn {x y : Nat} (hx : x < 16) (hy : y < 16) (h : digit x = digit y) : x = y := by
  have hall : ∀ x < 16, ∀ y < 16, digit x = digit y → x = y := by decide
  exact hall x hx y hy h

/-- Bytes are told apart by their two digits. -/
theorem ofByte_injective {b c : UInt8} (h : ofByte b = ofByte c) : b = c := by
  have hb : b.toNat < 256 := b.toNat_lt
  have hc : c.toNat < 256 := c.toNat_lt
  simp only [ofByte, List.cons.injEq, and_true] at h
  have hhigh := digit_injOn (by omega) (by omega) h.1
  have hlow := digit_injOn (by omega) (by omega) h.2
  exact UInt8.toNat_inj.1 (by omega)

theorem flatMap_ofByte_injective {bs cs : List UInt8} (h : bs.flatMap ofByte = cs.flatMap ofByte) :
    bs = cs := by
  induction bs generalizing cs with
  | nil =>
      cases cs with
      | nil => rfl
      | cons c cs => cases h
  | cons b bs ih =>
      cases cs with
      | nil => cases h
      | cons c cs =>
          obtain ⟨hfirst, hrest⟩ := List.append_inj h rfl
          rw [ofByte_injective hfirst, ih hrest]

/-- Digits spell at most one byte string. -/
theorem Spells.unique {bs bs' : List UInt8} (h : Spells cs bs) (h' : Spells cs bs') : bs = bs' :=
  flatMap_ofByte_injective (h.form.symm.trans h'.form)

end FlowCheck.Text.Hex

namespace FlowCheck.CodeInput

open Text Text.Hex

variable {cs : List Char} {bs : Array UInt8} {s field : String} {bytes : Array UInt8}

/-- A text denotes at most one byte string: behind a prefix there is no second reading, since the
prefix holds a letter that is no digit. -/
theorem Denotes.unique {bs bs' : List UInt8} (h : Denotes cs bs) (h' : Denotes cs bs') :
    bs = bs' := by
  have hmarked : ∀ {digits digits' : List Char} {bs : List UInt8}, Spells digits bs →
      digits ≠ '0' :: 'x' :: digits' := by
    rintro digits digits' bs hspells rfl
    exact absurd (hspells.digits 'x' (by simp)) (by decide)
  obtain ⟨digits, hcs, hspells⟩ := h
  obtain ⟨digits', hcs', hspells'⟩ := h'
  rcases hcs with hcs | hcs <;> rcases hcs' with hcs' | hcs' <;> rw [hcs] at hcs'
  · subst hcs'
    exact hspells.unique hspells'
  · exact absurd hcs' (hmarked hspells)
  · exact absurd hcs'.symm (hmarked hspells')
  · obtain rfl : digits = digits' := by simpa using hcs'
    exact hspells.unique hspells'

theorem hexBytes?_eq_some_iff : hexBytes? cs = some bs ↔ Denotes cs bs.toList := by
  refine ⟨denotes_of_hexBytes?, fun h => ?_⟩
  obtain ⟨bs', hbs'⟩ := Option.isSome_iff_exists.1 (isSome_hexBytes?_iff.2 h.isHexText)
  rw [hbs', Array.toList_inj.1 ((denotes_of_hexBytes? hbs').unique h)]

theorem hexBytes?_eq_none_iff : hexBytes? cs = none ↔ ¬ IsHexText cs := by
  rw [← isSome_hexBytes?_iff, Option.not_isSome_iff_eq_none]

/-- Text is code exactly if it denotes bytes that are not too many. -/
theorem code_text_eq_ok_iff : (text s).code field = .ok bytes ↔
    Denotes s.toList bytes.toList ∧ bytes.size ≤ maxCodeSize := by
  rw [← hexBytes?_eq_some_iff, code, toBytes]
  cases hexBytes? s.toList with
  | none => simp
  | some bs =>
      simp only [Option.some.injEq]
      split
      · rename_i hlong
        refine iff_of_false nofun ?_
        rintro ⟨rfl, hsize⟩
        exact Nat.not_lt.2 hsize hlong
      · rename_i hshort
        rw [Except.ok.injEq]
        refine ⟨fun h => ⟨h, h ▸ Nat.not_lt.1 hshort⟩, fun h => h.1⟩

/-- A text is refused in the name of its field, for being no hexadecimal text or for its length. -/
theorem code_text_error {e : InputError} (h : (text s).code field = .error e) :
    (e = ⟨field, .notHex⟩ ∧ ¬ IsHexText s.toList) ∨
      (e = ⟨field, .codeTooLong⟩ ∧ ∃ bs, Denotes s.toList bs ∧ maxCodeSize < bs.length) := by
  rw [code, toBytes] at h
  cases hread : hexBytes? s.toList with
  | none =>
      simp only [hread, Except.error.injEq] at h
      exact Or.inl ⟨h.symm, hexBytes?_eq_none_iff.1 hread⟩
  | some bs =>
      simp only [hread] at h
      split at h
      · rename_i hlong
        rw [Except.error.injEq] at h
        exact Or.inr ⟨h.symm, bs.toList, denotes_of_hexBytes? hread, by simpa using hlong⟩
      · cases h

theorem exists_code_text_iff : (∃ bytes, (text s).code field = .ok bytes) ↔
    ∃ digits, (withoutBlanks s.toList = digits ∨ withoutBlanks s.toList = '0' :: 'x' :: digits) ∧
      digits.length % 2 = 0 ∧ (∀ c ∈ digits, IsDigit c) ∧ digits.length / 2 ≤ maxCodeSize := by
  constructor
  · rintro ⟨bytes, h⟩
    obtain ⟨⟨digits, hcs, hspells⟩, hsize⟩ := code_text_eq_ok_iff.1 h
    have hlength : digits.length = 2 * bytes.size := hspells.length
    exact ⟨digits, hcs, by omega, hspells.digits, by omega⟩
  · rintro ⟨digits, hcs, heven, hdigits, hsize⟩
    obtain ⟨bytes, hbytes⟩ := Option.isSome_iff_exists.1 (isSome_bytesFrom #[] heven hdigits)
    have hspells := spells_of_bytes? hbytes
    have hlength : digits.length = 2 * bytes.size := hspells.length
    exact ⟨bytes, code_text_eq_ok_iff.2 ⟨⟨digits, hcs, hspells⟩, by omega⟩⟩

/-! ## Blanks put into a text -/

/-- A text with any blanks put in at any places. -/
inductive Spaced : List Char → List Char → Prop
  | nil : Spaced [] []
  | keep (c : Char) {cs ds : List Char} (h : Spaced cs ds) : Spaced (c :: cs) (c :: ds)
  | blank {c : Char} {cs ds : List Char} (hblank : isBlank c = true) (h : Spaced cs ds) :
      Spaced cs (c :: ds)

/-- Removing blanks undoes putting them in. -/
theorem Spaced.withoutBlanks_eq {cs ds : List Char} (h : Spaced cs ds)
    (hcs : ∀ c ∈ cs, isBlank c = false) : withoutBlanks ds = cs := by
  induction h with
  | nil => rfl
  | keep c h ih =>
      rw [List.forall_mem_cons] at hcs
      have hrest := ih hcs.2
      rw [withoutBlanks] at hrest ⊢
      rw [List.filter_cons_of_pos (by simp [hcs.1]), hrest]
  | blank hblank h ih =>
      have hrest := ih hcs
      rw [withoutBlanks] at hrest ⊢
      rw [List.filter_cons_of_neg (by simp [hblank]), hrest]

theorem isBlank_of_isDigit {c : Char} (h : IsDigit c) : isBlank c = false :=
  forall_ascii (P := fun c => IsDigit c → isBlank c = false) (by decide +kernel) h.toNat_lt h

/-- Bytes are denoted by their digits in letters of any case, with or without the prefix and with
any blanks put in. -/
theorem denotes_of_spaced {digits : List Char} {bs : List UInt8} (hspells : Spells digits bs)
    (h : Spaced digits cs ∨ Spaced ('0' :: 'x' :: digits) cs) : Denotes cs bs := by
  have hblanks : ∀ c ∈ digits, isBlank c = false :=
    fun c hc => isBlank_of_isDigit (hspells.digits c hc)
  refine ⟨digits, ?_, hspells⟩
  rcases h with h | h
  · exact Or.inl (h.withoutBlanks_eq hblanks)
  · refine Or.inr (h.withoutBlanks_eq ?_)
    rw [List.forall_mem_cons, List.forall_mem_cons]
    exact ⟨by decide, by decide, hblanks⟩

/-- Which texts are code, and which code they are.  A text is code exactly if, without its blanks,
it is an even number of hexadecimal digits behind an optional prefix, of at most the largest code
size in bytes; it is then the code that these digits denote, and otherwise it is refused in the name
of its field.  So code of at most the largest size comes back from its digits in letters of either
case, with or without the prefix, whatever blanks are put in. -/
theorem code_of_text :
    (∀ s field : String,
      ((∃ bytes, (text s).code field = .ok bytes) ↔
        ∃ digits, (withoutBlanks s.toList = digits ∨
            withoutBlanks s.toList = '0' :: 'x' :: digits) ∧
          digits.length % 2 = 0 ∧ (∀ c ∈ digits, IsDigit c) ∧ digits.length / 2 ≤ maxCodeSize) ∧
      (∀ bytes, (text s).code field = .ok bytes → Denotes s.toList bytes.toList) ∧
      ∀ e, (text s).code field = .error e →
        (e = ⟨field, .notHex⟩ ∧ ¬ IsHexText s.toList) ∨
          (e = ⟨field, .codeTooLong⟩ ∧ ∃ bs, Denotes s.toList bs ∧ maxCodeSize < bs.length)) ∧
    ∀ (bs : List UInt8) (digits : List Char) (s field : String), bs.length ≤ maxCodeSize →
      Spells digits bs → Spaced digits s.toList ∨ Spaced ('0' :: 'x' :: digits) s.toList →
        (text s).code field = .ok bs.toArray := by
  refine ⟨fun s field => ⟨exists_code_text_iff, fun bytes h => (code_text_eq_ok_iff.1 h).1,
    fun e => code_text_error⟩, fun bs digits s field hsize hspells hspaced => ?_⟩
  refine code_text_eq_ok_iff.2 ⟨denotes_of_spaced hspells hspaced, ?_⟩
  rwa [List.size_toArray]

/-- A prefix and a byte that blanks divide, in mixed case. -/
theorem code_of_text_divided :
    (text " 0\tx A\u3000b\n").code "code" = .ok #[0xab] ∧
      Denotes " 0\tx A\u3000b\n".toList [0xab] := by
  obtain ⟨hgrammar, hback⟩ := code_of_text
  have hdigits : IsDigit 'A' ∧ IsDigit 'b' := by decide
  have hspells : Spells ['A', 'b'] [0xab] := ⟨by simp [hdigits], by decide⟩
  have hspaced : Spaced ['0', 'x', 'A', 'b'] " 0\tx A\u3000b\n".toList :=
    .blank (by decide) (.keep _ (.blank (by decide) (.keep _ (.blank (by decide)
      (.keep _ (.blank (by decide) (.keep _ (.blank (by decide) .nil))))))))
  have hcode := hback [0xab] ['A', 'b'] _ "code" (by norm_num [maxCodeSize]) hspells
    (Or.inr hspaced)
  exact ⟨hcode, (hgrammar _ "code").2.1 _ hcode⟩

end FlowCheck.CodeInput
