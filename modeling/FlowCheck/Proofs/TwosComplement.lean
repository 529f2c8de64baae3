import FlowCheck.Proofs.ExactResults
import Mathlib.Data.Int.ModEq
import Mathlib.Data.Rat.Floor
import Mathlib.Tactic.Linarith
import Mathlib.Tactic.Positivity
import Mathlib.Tactic.Ring

/-!
# Words as signed integers

A word reads as the integer of `[-2 ^ 255, 2 ^ 255)` that it is congruent to (`Word.Reads`), and no
other (`Word.reads_iff`).  Under this reading the signed instructions, the shifts and the access to
bytes are operations of exact arithmetic (`SignedArithmetic`): quotients are taken of rational
numbers and cut toward zero, remainders have the sign of the dividend, shifts multiply and divide by
powers of two however far they go, and a sign that is extended gives the only word that keeps the
low bytes and reads as an integer of that many bytes.
-/

namespace FlowCheck

/-! ## Bytes of a number -/

/-- The bytes of a number are its digits to the base 256, the most significant one first. -/
theorem Bytes.BigEndian.getElem?_encode (width n i : Nat) (hi : i < width) :
    (encode width n)[i]? = some (UInt8.ofNat (n / 256 ^ (width - 1 - i) % 256)) := by
  induction width generalizing n with
  | zero => omega
  | succ width ih =>
      rw [encode]
      rcases Nat.lt_or_ge i width with hlt | hge
      · have hpow : 256 * 256 ^ (width - 1 - i) = 256 ^ (width + 1 - 1 - i) := by
          rw [← Nat.pow_succ', show width + 1 - 1 - i = width - 1 - i + 1 by omega]
        rw [List.getElem?_append_left (by rw [length_encode]; exact hlt), ih _ hlt,
          Nat.div_div_eq_div_mul, hpow]
      · obtain rfl : i = width := by omega
        rw [List.getElem?_append_right (by rw [length_encode]), length_encode, Nat.sub_self]
        simp

/-! ## Exact division -/

/-- A rational number cut toward zero. -/
def truncated (q : ℚ) : ℤ :=
  if 0 ≤ q then ⌊q⌋ else ⌈q⌉

/-- The remainder of a division by `y` that has the sign of the dividend `x`. -/
structure SignedRemainder (x y r : ℤ) : Prop where
  dvd : y ∣ x - r
  small : |r| < |y|
  sign : 0 ≤ x * r

theorem truncated_neg (q : ℚ) : truncated (-q) = -truncated q := by
  unfold truncated
  rcases lt_trichotomy q 0 with hlt | rfl | hgt
  · rw [if_pos (by linarith), if_neg (by linarith), Int.floor_neg]
  · simp
  · rw [if_neg (by linarith), if_pos (by linarith), Int.ceil_neg]

theorem truncated_natCast_div (m n : Nat) : truncated ((m : ℚ) / n) = (m / n : Nat) := by
  rw [truncated, if_pos (by positivity)]
  exact_mod_cast Rat.floor_natCast_div_natCast m n

/-- Cutting the rational quotient is the integer division that rounds toward zero. -/
theorem truncated_div (x y : ℤ) : truncated ((x : ℚ) / y) = x.tdiv y := by
  cases x with
  | ofNat m =>
      cases y with
      | ofNat n => exact truncated_natCast_div m n
      | negSucc n =>
          have hquotient : ((Int.ofNat m : ℤ) : ℚ) / (Int.negSucc n : ℤ) =
              -((m : ℚ) / (n + 1 : Nat)) := by
            rw [Int.negSucc_eq]
            push_cast
            rw [div_neg]
            rfl
          rw [hquotient, truncated_neg, truncated_natCast_div]
          rfl
  | negSucc m =>
      cases y with
      | ofNat n =>
          have hquotient : ((Int.negSucc m : ℤ) : ℚ) / (Int.ofNat n : ℤ) =
              -((m + 1 : Nat) / (n : ℚ)) := by
            rw [Int.negSucc_eq]
            push_cast
            rw [neg_div]
            rfl
          rw [hquotient, truncated_neg, truncated_natCast_div]
          rfl
      | negSucc n =>
          have hquotient : ((Int.negSucc m : ℤ) : ℚ) / (Int.negSucc n : ℤ) =
              ((m + 1 : Nat) : ℚ) / (n + 1 : Nat) := by
            rw [Int.negSucc_eq, Int.negSucc_eq]
            push_cast
            rw [neg_div_neg_eq]
          rw [hquotient, truncated_natCast_div]
          rfl

theorem signedRemainder_tmod (x : ℤ) {y : ℤ} (hy : y ≠ 0) : SignedRemainder x y (x.tmod y) where
  dvd := ⟨x.tdiv y, by linarith [Int.mul_tdiv_add_tmod x y]⟩
  small := by
    have hlt := Nat.mod_lt x.natAbs (Int.natAbs_pos.2 hy)
    rw [Int.abs_eq_natAbs, Int.abs_eq_natAbs, Int.natAbs_tmod]
    exact_mod_cast hlt
  sign := by
    rcases le_total 0 x with hpos | hneg
    · exact mul_nonneg hpos (Int.tmod_nonneg y hpos)
    · have hnonneg := Int.tmod_nonneg y (Int.neg_nonneg_of_nonpos hneg)
      rw [Int.neg_tmod] at hnonneg
      exact mul_nonneg_of_nonpos_of_nonpos hneg (Int.nonpos_of_neg_nonneg hnonneg)

/-- A division has one remainder with the sign of the dividend. -/
theorem SignedRemainder.unique {x y r t : ℤ} (hr : SignedRemainder x y r)
    (ht : SignedRemainder x y t) : r = t := by
  have hdvd : |y| ∣ r - t := by
    rw [abs_dvd, ← sub_sub_sub_cancel_left t r x]
    exact dvd_sub ht.dvd hr.dvd
  -- both lie on one side of zero, so they are less than the divisor apart
  suffices hclose : |r - t| < |y| from sub_eq_zero.1 (Int.eq_zero_of_abs_lt_dvd hdvd hclose)
  have hr' := abs_lt.1 hr.small
  have ht' := abs_lt.1 ht.small
  rcases lt_trichotomy x 0 with hneg | rfl | hpos
  · have hrle : r ≤ 0 := nonpos_of_mul_nonneg_right hr.sign hneg
    have htle : t ≤ 0 := nonpos_of_mul_nonneg_right ht.sign hneg
    exact abs_lt.2 ⟨by omega, by omega⟩
  · have hzero : ∀ {s : ℤ}, SignedRemainder 0 y s → s = 0 := by
      intro s hs
      have hs' : |y| ∣ s := by
        rw [abs_dvd, ← dvd_neg, ← zero_sub]
        exact hs.dvd
      exact Int.eq_zero_of_abs_lt_dvd hs' hs.small
    rw [hzero ht, sub_zero]
    exact hr.small
  · have hrge : 0 ≤ r := nonneg_of_mul_nonneg_right hr.sign hpos
    have htge : 0 ≤ t := nonneg_of_mul_nonneg_right ht.sign hpos
    exact abs_lt.2 ⟨by omega, by omega⟩

/-- Integers of `[-m, m)` that are congruent modulo `2 * m` are equal. -/
theorem eq_of_modEq_of_mem {m x y : ℤ} (hx : -m ≤ x ∧ x < m) (hy : -m ≤ y ∧ y < m)
    (h : x ≡ y [ZMOD 2 * m]) : x = y := by
  have hzero : y - x = 0 :=
    Int.eq_zero_of_abs_lt_dvd h.dvd (abs_lt.2 ⟨by omega, by omega⟩)
  omega

/-! ## The signed reading -/

/-- The integer that the bits of a word stand for in two's complement. -/
structure Word.Reads (w : Word) (x : ℤ) : Prop where
  lower : -2 ^ 255 ≤ x
  upper : x < 2 ^ 255
  congr : x ≡ w.toNat [ZMOD 2 ^ 256]

namespace Word

theorem reads_toInt (w : Word) : w.Reads w.toInt := by
  have hlt := w.isLt
  unfold wordModulus at hlt
  unfold toInt isNegative wordModulus
  by_cases hneg : 2 ^ 255 ≤ w.toNat
  · rw [if_pos (decide_eq_true hneg)]
    exact ⟨by omega, by omega, by simp [Int.ModEq]⟩
  · rw [if_neg (by simpa using hneg)]
    exact ⟨by omega, by omega, Int.ModEq.refl _⟩

theorem Reads.unique {w : Word} {x y : ℤ} (hx : w.Reads x) (hy : w.Reads y) : x = y :=
  eq_of_modEq_of_mem ⟨hx.lower, hx.upper⟩ ⟨hy.lower, hy.upper⟩ (hx.congr.trans hy.congr.symm)

/-- A word reads as one integer. -/
theorem reads_iff {w : Word} {x : ℤ} : w.Reads x ↔ x = w.toInt :=
  ⟨fun h => h.unique w.reads_toInt, fun h => h ▸ w.reads_toInt⟩

/-- Words with congruent values are equal. -/
theorem eq_of_modEq {v w : Word} (h : (v.toNat : ℤ) ≡ w.toNat [ZMOD 2 ^ 256]) : v = w := by
  have hv := v.isLt
  have hw := w.isLt
  apply ext
  have h' : (v.toNat : ℤ) % 2 ^ 256 = w.toNat % 2 ^ 256 := h
  unfold wordModulus at hv hw
  omega

theorem ofInt_modEq (n : ℤ) : ((ofInt n).toNat : ℤ) ≡ n [ZMOD 2 ^ 256] := by
  rw [toNat_ofInt]
  exact Int.mod_modEq n _

theorem toInt_eq_zero_iff (w : Word) : w.toInt = 0 ↔ w.toNat = 0 := by
  have hlt := w.isLt
  unfold toInt isNegative
  simp only [decide_eq_true_eq]
  split <;> omega

/-! ## Division -/

theorem toNat_signedDiv (a b : Word) :
    ((signedDiv a b).toNat : ℤ) = truncated ((a.toInt : ℚ) / b.toInt) % 2 ^ 256 := by
  rw [signedDiv, toNat_ofInt, truncated_div]
  rfl

theorem toNat_signedMod {a b : Word} (hb : b.toNat ≠ 0) :
    ((signedMod a b).toNat : ℤ) = a.toInt.tmod b.toInt % 2 ^ 256 := by
  rw [signedMod, if_neg hb, toNat_ofInt]
  rfl

/-- Quotient and remainder give back the dividend, up to the bits that a word does not hold. -/
theorem signedDiv_mul_add_signedMod {a b : Word} (hb : b.toNat ≠ 0) :
    ((signedDiv a b).toNat * b.toNat + (signedMod a b).toNat : ℤ) ≡ a.toNat [ZMOD 2 ^ 256] := by
  have hquotient : ((signedDiv a b).toNat : ℤ) ≡ a.toInt.tdiv b.toInt [ZMOD 2 ^ 256] :=
    ofInt_modEq _
  have hremainder : ((signedMod a b).toNat : ℤ) ≡ a.toInt.tmod b.toInt [ZMOD 2 ^ 256] := by
    rw [signedMod, if_neg hb]
    exact ofInt_modEq _
  calc ((signedDiv a b).toNat * b.toNat + (signedMod a b).toNat : ℤ)
    _ ≡ a.toInt.tdiv b.toInt * b.toInt + a.toInt.tmod b.toInt [ZMOD 2 ^ 256] :=
        (hquotient.mul b.reads_toInt.congr.symm).add hremainder
    _ = a.toInt := by rw [Int.mul_comm, Int.mul_tdiv_add_tmod]
    _ ≡ a.toNat [ZMOD 2 ^ 256] := a.reads_toInt.congr

theorem signed_by_zero {a b : Word} (hb : b.toNat = 0) :
    (signedDiv a b).toNat = 0 ∧ (signedMod a b).toNat = 0 := by
  rw [signedDiv, signedMod, if_pos hb, b.toInt_eq_zero_iff.2 hb, Int.tdiv_zero]
  exact ⟨rfl, rfl⟩

theorem toNat_ofBool_decide (p : Prop) [Decidable p] :
    (ofBool (decide p)).toNat = if p then 1 else 0 := by
  rw [toNat_ofBool]
  by_cases hp : p <;> simp [hp]

/-! ## Shifts -/

/-- A shift by all the bits or more gives what the division by that power of two gives. -/
theorem toNat_shiftArith (k v : Word) :
    ((shiftArith k v).toNat : ℤ) = v.toInt / 2 ^ k.toNat % 2 ^ 256 := by
  unfold shiftArith
  split
  case isTrue hfar =>
    obtain ⟨hlower, hupper, -⟩ := v.reads_toInt
    have hpow : (2 : ℤ) ^ 256 ≤ 2 ^ k.toNat := pow_le_pow_right₀ (by norm_num) hfar
    have hsign : v.isNegative = true ↔ v.toInt < 0 := by
      have hlt := v.isLt
      unfold toInt isNegative wordModulus at *
      simp only [decide_eq_true_eq]
      split <;> omega
    split
    case isTrue hneg =>
      have hquotient : v.toInt / 2 ^ k.toNat = -1 :=
        Int.ediv_eq_neg_one_of_neg_of_le (hsign.1 hneg) (by omega)
      rw [hquotient]
      rfl
    case isFalse hneg =>
      have hquotient : v.toInt / 2 ^ k.toNat = 0 :=
        Int.ediv_eq_zero_of_lt (by rw [hsign] at hneg; omega) (by omega)
      rw [hquotient]
      rfl
  case isFalse => exact toNat_ofInt _

theorem floor_div_two_pow (x : ℤ) (k : Nat) : ⌊(x : ℚ) / 2 ^ k⌋ = x / 2 ^ k := by
  have h := Rat.floor_intCast_div_natCast x (2 ^ k)
  push_cast at h
  exact h

theorem toNat_shl (k v : Word) :
    (binary .shl k v).toNat = v.toNat * 2 ^ k.toNat % 2 ^ 256 := by
  unfold binary
  dsimp only
  split
  case isTrue hfar =>
    have hdvd : 2 ^ 256 ∣ v.toNat * 2 ^ k.toNat := Dvd.dvd.mul_left (pow_dvd_pow 2 hfar) _
    rw [Nat.mod_eq_zero_of_dvd hdvd]
    rfl
  case isFalse => rfl

theorem toNat_shr (k v : Word) :
    (binary .shr k v).toNat = v.toNat / 2 ^ k.toNat % 2 ^ 256 := by
  unfold binary
  dsimp only
  split
  case isTrue hfar =>
    have hsmall : v.toNat < 2 ^ k.toNat :=
      Nat.lt_of_lt_of_le v.isLt (Nat.pow_le_pow_right (by decide) hfar)
    rw [Nat.div_eq_of_lt hsmall]
    rfl
  case isFalse => rfl

/-! ## Extended signs and bytes -/

/-- The extended value reads as an integer of `size + 1` bytes, and its low bytes are kept. -/
theorem signExtend_reads {size : Word} (value : Word) (hsize : size.toNat < 31) :
    ∃ z, (signExtend size value).Reads z ∧
      (-2 ^ (8 * size.toNat + 7) ≤ z ∧ z < 2 ^ (8 * size.toNat + 7)) ∧
      z ≡ value.toNat [ZMOD 2 * 2 ^ (8 * size.toNat + 7)] := by
  unfold signExtend
  rw [if_neg (by omega)]
  obtain ⟨bit, hbit⟩ : ∃ bit, bit = 8 * size.toNat + 7 := ⟨_, rfl⟩
  have hpow : 2 ^ bit ≤ 2 ^ 255 := Nat.pow_le_pow_right (by decide) (by omega)
  have hlow : value.toNat % 2 ^ bit < 2 ^ bit := Nat.mod_lt _ (Nat.two_pow_pos bit)
  have hsplit := Nat.div_add_mod value.toNat (2 ^ bit)
  simp only [← hbit]
  generalize value.toNat % 2 ^ bit = low at *
  generalize value.toNat / 2 ^ bit = high at *
  have hcast : ((2 ^ bit : Nat) : ℤ) = 2 ^ bit := by push_cast; rfl
  split
  case isTrue hset =>
    obtain ⟨q, rfl⟩ : ∃ q, high = 2 * q + 1 := ⟨high / 2, by omega⟩
    have hvalue : (value.toNat : ℤ) - (low - 2 ^ bit) = 2 * 2 ^ bit * (q + 1) := by
      rw [← hsplit]
      push_cast
      ring
    have hword : wordModulus - 2 ^ bit + low < wordModulus := by unfold wordModulus; omega
    refine ⟨low - 2 ^ bit, ⟨by omega, by omega, ?_⟩, ⟨by omega, by omega⟩,
      Int.modEq_iff_dvd.2 ⟨_, hvalue⟩⟩
    rw [toNat_ofNat_of_lt hword]
    refine Int.modEq_iff_dvd.2 ⟨1, ?_⟩
    unfold wordModulus
    omega
  case isFalse hclear =>
    obtain ⟨q, rfl⟩ : ∃ q, high = 2 * q := ⟨high / 2, by omega⟩
    have hvalue : (value.toNat : ℤ) - low = 2 * 2 ^ bit * q := by
      rw [← hsplit]
      push_cast
      ring
    have hword : low < wordModulus := by unfold wordModulus; omega
    refine ⟨low, ⟨by omega, by omega, ?_⟩, ⟨by omega, by omega⟩,
      Int.modEq_iff_dvd.2 ⟨_, hvalue⟩⟩
    rw [toNat_ofNat_of_lt hword]

/-- The only word with these low bytes that reads as an integer of so many bytes. -/
theorem eq_signExtend_iff {size value : Word} (hsize : size.toNat < 31) (w : Word) :
    w = signExtend size value ↔
      w.toNat ≡ value.toNat [MOD 2 ^ (8 * (size.toNat + 1))] ∧
        ∃ z, w.Reads z ∧ -2 ^ (8 * size.toNat + 7) ≤ z ∧ z < 2 ^ (8 * size.toNat + 7) := by
  have hmodulus : ((2 ^ (8 * (size.toNat + 1)) : Nat) : ℤ) = 2 * 2 ^ (8 * size.toNat + 7) := by
    push_cast
    ring
  have hdvd : (2 * 2 ^ (8 * size.toNat + 7) : ℤ) ∣ 2 ^ 256 := by
    rw [← pow_succ']
    exact pow_dvd_pow 2 (by omega)
  obtain ⟨z, hreads, hrange, hcongr⟩ := signExtend_reads value hsize
  rw [← Int.natCast_modEq_iff, hmodulus]
  constructor
  · rintro rfl
    exact ⟨(hreads.congr.symm.of_dvd hdvd).trans hcongr, z, hreads, hrange⟩
  · rintro ⟨hlow, y, hy, hyrange⟩
    have hsame : y = z := eq_of_modEq_of_mem hyrange hrange
      (((hy.congr.of_dvd hdvd).trans hlow).trans hcongr.symm)
    subst hsame
    exact eq_of_modEq (hy.congr.symm.trans hreads.congr)

theorem getElem?_toBytes (index value : Word) (hindex : index.toNat < 32) :
    value.toBytes[index.toNat]? = some (UInt8.ofNat (byteAt index value).toNat) := by
  have hsmall : value.toNat / 256 ^ (31 - index.toNat) % 256 < wordModulus :=
    Nat.lt_trans (Nat.mod_lt _ (by decide)) (by decide)
  rw [toBytes, Bytes.BigEndian.getElem?_encode 32 _ _ hindex, byteAt, if_neg (by omega),
    toNat_ofNat_of_lt hsmall]

theorem toNat_byteAt_lt (index value : Word) : (byteAt index value).toNat < 256 := by
  unfold byteAt
  split
  case isTrue => decide
  case isFalse =>
    exact Nat.lt_of_le_of_lt (Nat.mod_le _ _) (Nat.mod_lt _ (by decide))

end Word

/-! ## Instructions -/

/-- What the signed and bit-level instructions compute on words that read as `x` and `y`. -/
structure SignedArithmetic (a b : Word) (x y : ℤ) : Prop where
  sdiv : ((Word.binary .sdiv a b).toNat : ℤ) = truncated ((x : ℚ) / y) % 2 ^ 256
  smod : b.toNat ≠ 0 → ∃ r, SignedRemainder x y r ∧ (∀ t, SignedRemainder x y t → t = r) ∧
    ((Word.binary .smod a b).toNat : ℤ) = r % 2 ^ 256
  by_zero : b.toNat = 0 → (Word.binary .sdiv a b).toNat = 0 ∧ (Word.binary .smod a b).toNat = 0
  division : b.toNat ≠ 0 →
    (Word.binary .sdiv a b).toNat * b.toNat + (Word.binary .smod a b).toNat ≡ a.toNat
      [MOD 2 ^ 256]
  slt : (Word.binary .slt a b).toNat = if x < y then 1 else 0
  sgt : (Word.binary .sgt a b).toNat = if y < x then 1 else 0
  sar : ((Word.binary .sar a b).toNat : ℤ) = ⌊(y : ℚ) / 2 ^ a.toNat⌋ % 2 ^ 256
  shr : (Word.binary .shr a b).toNat = b.toNat / 2 ^ a.toNat % 2 ^ 256
  shl : (Word.binary .shl a b).toNat = b.toNat * 2 ^ a.toNat % 2 ^ 256
  signextend : a.toNat < 31 → ∀ w, w = Word.binary .signextend a b ↔
    w.toNat ≡ b.toNat [MOD 2 ^ (8 * (a.toNat + 1))] ∧
      ∃ z, w.Reads z ∧ -2 ^ (8 * a.toNat + 7) ≤ z ∧ z < 2 ^ (8 * a.toNat + 7)
  signextend_all : 31 ≤ a.toNat → Word.binary .signextend a b = b
  byte : a.toNat < 32 →
    b.toBytes[a.toNat]? = some (UInt8.ofNat (Word.binary .byte a b).toNat) ∧
      (Word.binary .byte a b).toNat < 256
  byte_beyond : 32 ≤ a.toNat → (Word.binary .byte a b).toNat = 0
  bytes : b.toBytes.length = 32 ∧ Bytes.BigEndian.decode b.toBytes = b.toNat

/-- Every word reads as one integer, and the instructions compute with these integers: what the
formula of an instruction gives is the number of the word that it leaves. -/
theorem signed_instructions_exact (a b : Word) :
    (∃! x, a.Reads x) ∧ (∃! y, b.Reads y) ∧
      (∀ op : BinaryOp, op.result a.toNat b.toNat = (Word.binary op a b).toNat) ∧
      ∀ x y, a.Reads x → b.Reads y → SignedArithmetic a b x y := by
  have hunique : ∀ w : Word, ∃! x, w.Reads x := fun w =>
    ⟨w.toInt, w.reads_toInt, fun _ h => Word.reads_iff.1 h⟩
  refine ⟨hunique a, hunique b, fun op => op.result_toNat a b, ?_⟩
  intro x y hx hy
  obtain rfl := Word.reads_iff.1 hx
  obtain rfl := Word.reads_iff.1 hy
  exact {
    sdiv := Word.toNat_signedDiv a b
    smod := fun hb =>
      have hremainder := signedRemainder_tmod a.toInt (mt b.toInt_eq_zero_iff.1 hb)
      ⟨_, hremainder, fun _ ht => ht.unique hremainder, Word.toNat_signedMod hb⟩
    by_zero := Word.signed_by_zero
    division := fun hb => by
      rw [← Int.natCast_modEq_iff]
      exact_mod_cast Word.signedDiv_mul_add_signedMod hb
    slt := Word.toNat_ofBool_decide _
    sgt := Word.toNat_ofBool_decide _
    sar := by rw [Word.floor_div_two_pow]; exact Word.toNat_shiftArith a b
    shr := Word.toNat_shr a b
    shl := Word.toNat_shl a b
    signextend := Word.eq_signExtend_iff
    signextend_all := fun hsize => if_pos hsize
    byte := fun hindex => ⟨Word.getElem?_toBytes a b hindex, Word.toNat_byteAt_lt a b⟩
    byte_beyond := fun hindex => congrArg Word.toNat (if_pos hindex)
    bytes := ⟨Bytes.BigEndian.length_encode 32 _, Bytes.BigEndian.decode_encode 32 _ b.isLt⟩ }

/-- The least integer divided by `-1` is the only quotient that does not fit. -/
theorem signed_instructions_exact_least :
    (Word.ofInt (-2 ^ 255)).Reads (-2 ^ 255) ∧ (Word.ofInt (-1)).Reads (-1) ∧
      SignedArithmetic (Word.ofInt (-2 ^ 255)) (Word.ofInt (-1)) (-2 ^ 255) (-1) ∧
      (Word.binary .sdiv (Word.ofInt (-2 ^ 255)) (Word.ofInt (-1))).toNat = 2 ^ 255 := by
  have hleast : (Word.ofInt (-2 ^ 255)).Reads (-2 ^ 255) := Word.reads_iff.2 (by decide +kernel)
  have hminus : (Word.ofInt (-1)).Reads (-1) := Word.reads_iff.2 (by decide +kernel)
  exact ⟨hleast, hminus, (signed_instructions_exact _ _).2.2.2 _ _ hleast hminus, by decide +kernel⟩

end FlowCheck
