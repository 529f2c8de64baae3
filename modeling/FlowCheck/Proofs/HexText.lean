import FlowCheck.Input
import Mathlib

/-!
# Hexadecimal text

What counts as hexadecimal text, and which bytes it denotes.  A text denotes bytes if, blanks and an
optional `0x` aside, it is their two-digit form in letters of either case.
-/

namespace FlowCheck.Text

/-- What holds of the 128 ASCII characters one by one holds of all of them. -/
theorem forall_ascii {P : Char → Prop} (h : ∀ n < 128, P (Char.ofNat n)) {c : Char}
    (hc : c.toNat < 128) : P c := by
  have hchar := h c.toNat hc
  rwa [Char.ofNat_toNat] at hchar

namespace Hex

/-- A hexadecimal digit of either case. -/
def IsDigit (c : Char) : Prop :=
  ('0' ≤ c ∧ c ≤ '9') ∨ ('a' ≤ c ∧ c ≤ 'f') ∨ ('A' ≤ c ∧ c ≤ 'F')

instance (c : Char) : Decidable (IsDigit c) :=
  inferInstanceAs (Decidable (_ ∨ _ ∨ _))

theorem IsDigit.toNat_lt {c : Char} (h : IsDigit c) : c.toNat < 128 := by
  rcases h with ⟨-, h⟩ | ⟨-, h⟩ | ⟨-, h⟩
  · exact Nat.lt_of_le_of_lt (show c.toNat ≤ 57 from h) (by decide)
  · exact Nat.lt_of_le_of_lt (show c.toNat ≤ 102 from h) (by decide)
  · exact Nat.lt_of_le_of_lt (show c.toNat ≤ 70 from h) (by decide)

/-- Every digit is read as the number whose digit it is, in lower case. -/
theorem digit?_of_isDigit {c : Char} (h : IsDigit c) :
    ∃ x, digit? c = some x ∧ x < 16 ∧ digit x = c.toLower := by
  obtain ⟨x, hx, hread, hwritten⟩ := forall_ascii
    (P := fun c => IsDigit c → ∃ x < 16, digit? c = some x ∧ digit x = c.toLower)
    (by decide +kernel) h.toNat_lt h
  exact ⟨x, hread, hx, hwritten⟩

theorem isDigit_of_digit? {c : Char} {x : Nat} (h : digit? c = some x) : IsDigit c := by
  have hlt : c.toNat < 128 := by
    simp only [digit?, Bool.and_eq_true, decide_eq_true_eq] at h
    grind
  exact forall_ascii (P := fun c => (digit? c).isSome → IsDigit c) (by decide +kernel) hlt
    (by simp [h])

/-- The two digits of a byte that is put together from two numbers. -/
theorem ofByte_pair {x y : Nat} (hx : x < 16) (hy : y < 16) :
    ofByte (UInt8.ofNat (16 * x + y)) = [digit x, digit y] := by
  have hbyte : (UInt8.ofNat (16 * x + y)).toNat = 16 * x + y :=
    UInt8.toNat_ofNat_of_lt' (show 16 * x + y < 256 by omega)
  rw [ofByte, hbyte, show (16 * x + y) / 16 = x by omega, show (16 * x + y) % 16 = y by omega]

/-- Digits spell bytes if they are the two-digit form of the bytes, in letters of either case. -/
structure Spells (cs : List Char) (bs : List UInt8) : Prop where
  digits : ∀ c ∈ cs, IsDigit c
  form : cs.map Char.toLower = bs.flatMap ofByte

theorem length_flatMap_ofByte (bs : List UInt8) : (bs.flatMap ofByte).length = 2 * bs.length := by
  induction bs with
  | nil => rfl
  | cons b bs ih =>
      rw [List.flatMap_cons, List.length_append, ih, List.length_cons]
      show 2 + _ = _
      omega

theorem Spells.length {cs : List Char} {bs : List UInt8} (h : Spells cs bs) :
    cs.length = 2 * bs.length := by
  rw [← length_flatMap_ofByte, ← h.form, List.length_map]

/-- What is read behind the bytes read so far is what the digits spell. -/
theorem spells_of_bytesFrom {read bs : Array UInt8} {cs : List Char}
    (h : bytesFrom read cs = some bs) :
    ∃ more, bs.toList = read.toList ++ more ∧ Spells cs more := by
  induction read, cs using bytesFrom.induct with
  | case1 read =>
      obtain rfl : read = bs := by simpa [bytesFrom] using h
      exact ⟨[], by simp, ⟨by simp, rfl⟩⟩
  | case2 read c => simp [bytesFrom] at h
  | case3 read a b rest x y hy hx ih =>
      simp only [bytesFrom, hx, hy] at h
      obtain ⟨more, hmore, hspells⟩ := ih h
      have ha := isDigit_of_digit? hx
      have hb := isDigit_of_digit? hy
      obtain ⟨x', hx', hlt, hform⟩ := digit?_of_isDigit ha
      obtain ⟨y', hy', hlt', hform'⟩ := digit?_of_isDigit hb
      obtain rfl : x = x' := by simpa [hx] using hx'
      obtain rfl : y = y' := by simpa [hy] using hy'
      refine ⟨UInt8.ofNat (16 * x + y) :: more, by simp [hmore], ⟨?_, ?_⟩⟩
      · simpa [ha, hb] using hspells.digits
      · rw [List.flatMap_cons, ofByte_pair hlt hlt', ← hspells.form, hform, hform']
        rfl
  | case4 read a b rest hnot =>
      simp only [bytesFrom] at h
      cases h

/-- An even number of digits is read. -/
theorem isSome_bytesFrom {cs : List Char} (read : Array UInt8) (heven : cs.length % 2 = 0)
    (hdigits : ∀ c ∈ cs, IsDigit c) : (bytesFrom read cs).isSome := by
  induction read, cs using bytesFrom.induct with
  | case1 read => rfl
  | case2 read c => simp at heven
  | case3 read a b rest x y hy hx ih =>
      simp only [bytesFrom, hx, hy]
      simp only [List.length_cons] at heven
      exact ih (by omega) (fun c hc => hdigits c (by simp [hc]))
  | case4 read a b rest hnot =>
      obtain ⟨x, hx, -⟩ := digit?_of_isDigit (hdigits a (by simp))
      obtain ⟨y, hy, -⟩ := digit?_of_isDigit (hdigits b (by simp))
      exact (hnot x y hx hy).elim

theorem spells_of_bytes? {cs : List Char} {bs : Array UInt8} (h : bytes? cs = some bs) :
    Spells cs bs.toList := by
  obtain ⟨more, hmore, hspells⟩ := spells_of_bytesFrom h
  rw [hmore]
  exact hspells

end Hex

end FlowCheck.Text

namespace FlowCheck.CodeInput

open Text Text.Hex

variable {cs : List Char} {bs : Array UInt8}

/-- Hexadecimal text: blanks aside, an even number of digits behind an optional `0x`. -/
def IsHexText (cs : List Char) : Prop :=
  ∃ digits, (withoutBlanks cs = digits ∨ withoutBlanks cs = '0' :: 'x' :: digits) ∧
    digits.length % 2 = 0 ∧ ∀ c ∈ digits, IsDigit c

/-- The bytes that a text denotes. -/
def Denotes (cs : List Char) (bs : List UInt8) : Prop :=
  ∃ digits, (withoutBlanks cs = digits ∨ withoutBlanks cs = '0' :: 'x' :: digits) ∧ Spells digits bs

theorem Denotes.isHexText {bs : List UInt8} (h : Denotes cs bs) : IsHexText cs := by
  obtain ⟨digits, hcs, hspells⟩ := h
  exact ⟨digits, hcs, by have := hspells.length; omega, hspells.digits⟩

/-- A byte takes two characters. -/
theorem Denotes.length_le {bs : List UInt8} (h : Denotes cs bs) : 2 * bs.length ≤ cs.length := by
  obtain ⟨digits, hcs, hspells⟩ := h
  have hlength := hspells.length
  have hblanks : (withoutBlanks cs).length ≤ cs.length := List.length_filter_le ..
  rcases hcs with hcs | hcs <;> simp only [hcs, List.length_cons] at hblanks <;> omega

theorem denotes_of_hexBytes? (h : hexBytes? cs = some bs) : Denotes cs bs.toList := by
  unfold hexBytes? at h
  split at h
  · rename_i rest hrest
    exact ⟨rest, Or.inr hrest, spells_of_bytes? h⟩
  · exact ⟨_, Or.inl rfl, spells_of_bytes? h⟩

/-- Exactly hexadecimal text is read. -/
theorem isSome_hexBytes?_iff : (hexBytes? cs).isSome ↔ IsHexText cs := by
  constructor
  · intro h
    obtain ⟨bs, hbs⟩ := Option.isSome_iff_exists.1 h
    exact (denotes_of_hexBytes? hbs).isHexText
  · rintro ⟨digits, hcs, heven, hdigits⟩
    unfold hexBytes?
    split
    · rename_i rest hrest
      rcases hcs with hcs | hcs
      · -- the second character of a prefix is no digit
        rw [hrest] at hcs
        exact absurd (hdigits 'x' (by simp [← hcs])) (by decide)
      · obtain rfl : rest = digits := by simpa [hrest] using hcs
        exact isSome_bytesFrom _ heven hdigits
    · rename_i hnot
      rcases hcs with hcs | hcs
      · rw [hcs]
        exact isSome_bytesFrom _ heven hdigits
      · exact absurd hcs (hnot digits)

end FlowCheck.CodeInput
