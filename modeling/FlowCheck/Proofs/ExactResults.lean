import FlowCheck.Proofs.Tracking
import Mathlib.Data.Nat.Bitwise

/-!
# Exact results

The arithmetic instructions stated over unbounded integers.  Some of the formulas reduce their result
to its lowest 256 bits and some do not, and nothing but the formula keeps a result in the range of
words.  It always is in range, and it is the word that the machine computes: whatever the machine
reduces modulo `2 ^ 256` either is reduced by the formula as well or was in range before
(`UnaryOp.result_toNat`, `BinaryOp.result_toNat`, `TernaryOp.result_toNat`).  So the range check of
words accepts it (`Word.ofValue_toNat`).
-/

namespace FlowCheck

/-! ## Formulas -/

/-- The lowest 256 bits of an integer. -/
def wrapped (n : Int) : Int :=
  n % wordModulus

/-- The two's complement reading of 256 bits. -/
def signed (n : Nat) : Int :=
  if n &&& 2 ^ 255 ≠ 0 then (n : Int) - wordModulus else n

/-- The quotient of the absolute values, with the sign of the exact quotient. -/
def quotient (x y : Int) : Int :=
  let q : Int := (x.natAbs / y.natAbs : Nat)
  if decide (x < 0) != decide (y < 0) then -q else q

/-- The remainder of the absolute values, with the sign of the dividend. -/
def remainder (x y : Int) : Int :=
  let r : Int := (x.natAbs % y.natAbs : Nat)
  if x < 0 then -r else r

/-- All bits from the sign bit of the lowest `size + 1` bytes on are set or cleared with it. -/
def extendSign (size value : Nat) : Nat :=
  if 31 ≤ size then value
  else
    let sign := 2 ^ (8 * size + 7)
    if value &&& sign ≠ 0 then value ||| ((wordModulus - 1) ^^^ (sign - 1))
    else value &&& (sign - 1)

/-- The signed shift; one by all the bits leaves copies of the sign bit. -/
def shiftSigned (shift value : Nat) : Int :=
  if 256 ≤ shift then (if value &&& 2 ^ 255 ≠ 0 then (wordModulus - 1 : Nat) else 0)
  else wrapped (signed value >>> shift)

/-- The number of the last 32 bytes of a byte string. -/
def numberOf (bs : List UInt8) : Nat :=
  Bytes.BigEndian.decode (bs.drop (bs.length - 32))

/-- The number that a one-operand instruction computes. -/
def UnaryOp.result (op : UnaryOp) (a : Nat) : Int :=
  match op with
  | .iszero => (a == 0).toNat
  | .not => (a ^^^ (wordModulus - 1) : Nat)

/-- The number that a two-operand instruction computes. -/
def BinaryOp.result (op : BinaryOp) (a b : Nat) : Int :=
  match op with
  | .add => wrapped (a + b)
  | .mul => wrapped (a * b)
  | .sub => wrapped (a - b)
  | .div => if b = 0 then 0 else (a / b : Nat)
  | .sdiv => if b = 0 then 0 else wrapped (quotient (signed a) (signed b))
  | .mod => if b = 0 then 0 else (a % b : Nat)
  | .smod => if b = 0 then 0 else wrapped (remainder (signed a) (signed b))
  | .exp => (a ^ b % wordModulus : Nat)
  | .signextend => extendSign a b
  | .lt => (decide (a < b)).toNat
  | .gt => (decide (b < a)).toNat
  | .slt => (decide (signed a < signed b)).toNat
  | .sgt => (decide (signed b < signed a)).toNat
  | .eq => (a == b).toNat
  | .and => (a &&& b : Nat)
  | .or => (a ||| b : Nat)
  | .xor => (a ^^^ b : Nat)
  | .byte => (if 32 ≤ a then 0 else (b >>> (8 * (31 - a))) &&& 255 : Nat)
  | .shl => if a < 256 then wrapped (b <<< a : Nat) else 0
  | .shr => if a < 256 then (b >>> a : Nat) else 0
  | .sar => shiftSigned a b

/-- The number that a three-operand instruction computes. -/
def TernaryOp.result (op : TernaryOp) (a b n : Nat) : Int :=
  if n = 0 then 0
  else
    match op with
    | .addmod => ((a + b) % n : Nat)
    | .mulmod => (a * b % n : Nat)

/-! ## Words of numbers -/

namespace Word

theorem toNat_ofNat (n : Nat) : (ofNat n).toNat = n % wordModulus := rfl

theorem toNat_ofNat_of_lt {n : Nat} (h : n < wordModulus) : (ofNat n).toNat = n :=
  Nat.mod_eq_of_lt h

theorem toNat_ofInt (n : Int) : ((ofInt n).toNat : Int) = wrapped n :=
  Int.toNat_of_nonneg (Int.emod_nonneg n (by decide))

theorem toNat_ofBool (b : Bool) : (ofBool b).toNat = b.toNat := by
  cases b <;> rfl

theorem ext {a b : Word} (h : a.toNat = b.toNat) : a = b := by
  cases a
  cases b
  cases h
  rfl

theorem ofInt_natCast (n : Nat) : ofInt n = ofNat n := by
  apply ext
  show ((n : Int) % wordModulus).toNat = n % wordModulus
  rw [← Int.natCast_emod, Int.toNat_natCast]

theorem ofInt_toNat (w : Word) : ofInt w.toNat = w := by
  apply ext
  rw [ofInt_natCast, toNat_ofNat_of_lt w.isLt]

theorem order?_int (m n : Int) : (Value.int m).order? (.int n) = some (some (compare m n)) := rfl

/-- The range check accepts the value of a word. -/
theorem ofValue_toNat (w : Word) : ofValue (.int w.toNat) = .ok w := by
  have hlow : compare (w.toNat : Int) 0 ≠ .lt := by
    rw [Ne, Int.compare_eq_lt]
    omega
  have hbelow : compare (w.toNat : Int) (2 ^ 256) = .lt := by
    have hmodulus : (wordModulus : Int) = 2 ^ 256 := by
      rw [wordModulus, Int.natCast_pow, Int.cast_ofNat_Int]
    rw [Int.compare_eq_lt, ← hmodulus]
    exact Int.ofNat_lt.2 w.isLt
  rw [ofValue, order?_int, order?_int, hbelow]
  cases hcompare : compare (w.toNat : Int) 0 with
  | lt => exact absurd hcompare hlow
  | eq | gt =>
      show Except.ok (ofInt w.toNat) = Except.ok w
      rw [ofInt_toNat]

theorem and_two_pow_ne_zero_iff (n bit : Nat) : n &&& 2 ^ bit ≠ 0 ↔ n / 2 ^ bit % 2 = 1 := by
  have hpos := Nat.two_pow_pos bit
  rw [Nat.and_two_pow, Nat.testBit_eq_decide_div_mod_eq]
  by_cases hone : n / 2 ^ bit % 2 = 1 <;> simp [hone]

theorem sign_bit_iff (w : Word) : w.toNat &&& 2 ^ 255 ≠ 0 ↔ w.isNegative = true := by
  have hlt := w.isLt
  unfold wordModulus at hlt
  rw [and_two_pow_ne_zero_iff, isNegative, decide_eq_true_eq]
  omega

theorem signed_toNat (w : Word) : signed w.toNat = w.toInt := by
  unfold signed toInt
  simp only [sign_bit_iff]

theorem numberOf_eq (bs : List UInt8) : numberOf bs = (ofBytes bs).toNat := by
  have hlt := Bytes.BigEndian.decode_lt (bs.drop (bs.length - 32))
  have hlength : (bs.drop (bs.length - 32)).length ≤ 32 := by
    rw [List.length_drop]
    omega
  have hpow : 256 ^ (bs.drop (bs.length - 32)).length ≤ 256 ^ 32 :=
    Nat.pow_le_pow_right (by decide) hlength
  have hmodulus : (256 : Nat) ^ 32 = wordModulus := by decide
  rw [ofBytes, toNat_ofNat_of_lt (by omega), numberOf]

/-! ## Signed division -/

theorem tdiv_eq_quotient (x y : Int) : x.tdiv y = quotient x y := by
  cases x with
  | ofNat m => cases y <;> simp [quotient, Int.tdiv, Int.not_ofNat_neg]
  | negSucc m => cases y <;> simp [quotient, Int.tdiv, Int.negSucc_lt_zero]

theorem tmod_eq_remainder (x y : Int) : x.tmod y = remainder x y := by
  cases x with
  | ofNat m => cases y <;> simp [remainder, Int.tmod]
  | negSucc m => cases y <;> simp [remainder, Int.tmod, Int.negSucc_lt_zero]

theorem signedDiv_toNat (a b : Word) :
    (if b.toNat = 0 then 0 else wrapped (quotient (signed a.toNat) (signed b.toNat))) =
      (signedDiv a b).toNat := by
  rw [signedDiv, toNat_ofInt, tdiv_eq_quotient, signed_toNat, signed_toNat]
  split
  · rename_i hzero
    have hnone : b.toInt = 0 := by
      rw [← signed_toNat, hzero]
      rfl
    rw [← tdiv_eq_quotient, hnone, Int.tdiv_zero]
    rfl
  · rfl

theorem signedMod_toNat (a b : Word) :
    (if b.toNat = 0 then 0 else wrapped (remainder (signed a.toNat) (signed b.toNat))) =
      (signedMod a b).toNat := by
  rw [signedMod, signed_toNat, signed_toNat]
  split
  · rfl
  · rw [toNat_ofInt, tmod_eq_remainder]

/-! ## Powers -/

theorem powMod_mod (base exponent : Nat) :
    powMod base exponent % wordModulus = base ^ exponent % wordModulus := by
  have hsquare : ∀ (base n : Nat), (base * base % wordModulus) ^ n % wordModulus =
      base ^ (2 * n) % wordModulus := by
    intro base n
    rw [← Nat.pow_mod, ← Nat.pow_two, Nat.pow_mul]
  fun_induction powMod base exponent with
  | case1 base => rw [Nat.pow_zero]
  | case2 base exponent hzero half heven ih =>
      have hexponent : exponent = 2 * (exponent / 2) := by omega
      rw [ih, hsquare, ← hexponent]
  | case3 base exponent hzero half hodd ih =>
      have hexponent : exponent = 2 * (exponent / 2) + 1 := by omega
      calc base * half % wordModulus % wordModulus
        _ = base * (half % wordModulus) % wordModulus := by rw [Nat.mod_mod, Nat.mul_mod_mod]
        _ = base * base ^ (2 * (exponent / 2)) % wordModulus := by
              rw [ih, hsquare, Nat.mul_mod_mod]
        _ = base ^ exponent % wordModulus := by
              rw [Nat.mul_comm, ← Nat.pow_succ, Nat.succ_eq_add_one, ← hexponent]

/-! ## Bits -/

/-- Setting all bits from a place on leaves the ones below it. -/
theorem or_high_bits {n bit : Nat} (hn : n < wordModulus) (hbit : bit < 256) :
    n ||| ((wordModulus - 1) ^^^ (2 ^ bit - 1)) = wordModulus - 2 ^ bit + n % 2 ^ bit := by
  have hsplit : wordModulus - 2 ^ bit + n % 2 ^ bit =
      2 ^ bit * (2 ^ (256 - bit) - 1) + n % 2 ^ bit := by
    rw [Nat.mul_sub_one, ← Nat.pow_add, Nat.add_sub_cancel' (Nat.le_of_lt hbit), wordModulus]
  have hlow : n % 2 ^ bit < 2 ^ bit := Nat.mod_lt _ (Nat.two_pow_pos bit)
  unfold wordModulus at hn
  rw [hsplit]
  apply Nat.eq_of_testBit_eq
  intro j
  rw [Nat.testBit_or, Nat.testBit_xor, wordModulus, Nat.testBit_two_pow_sub_one,
    Nat.testBit_two_pow_sub_one, Nat.testBit_two_pow_mul_add _ hlow]
  by_cases hj : j < bit
  · have hword : j < 256 := by omega
    simp [hj, hword, Nat.testBit_mod_two_pow]
  · by_cases hword : j < 256
    · have hdiff : j - bit < 256 - bit := by omega
      simp [hj, hword, hdiff]
    · have hnone : n.testBit j = false := Nat.testBit_lt_two_pow
        (Nat.lt_of_lt_of_le hn (Nat.pow_le_pow_right (by omega) (by omega)))
      have hdiff : ¬ j - bit < 256 - bit := by omega
      simp [hj, hword, hdiff, hnone]

theorem extendSign_toNat (size value : Word) :
    extendSign size.toNat value.toNat = (signExtend size value).toNat := by
  unfold extendSign signExtend
  by_cases hsize : 31 ≤ size.toNat
  · rw [if_pos hsize, if_pos hsize]
  · rw [if_neg hsize, if_neg hsize]
    obtain ⟨bit, hbit⟩ : ∃ bit, bit = 8 * size.toNat + 7 := ⟨_, rfl⟩
    have hbelow : bit < 256 := by omega
    have hpow : 2 ^ bit < wordModulus := Nat.pow_lt_pow_right (by omega) hbelow
    have hlow : value.toNat % 2 ^ bit < 2 ^ bit := Nat.mod_lt _ (Nat.two_pow_pos bit)
    simp only [← hbit, and_two_pow_ne_zero_iff]
    split
    · rw [or_high_bits value.isLt hbelow, toNat_ofNat_of_lt (by omega)]
    · rw [toNat_ofNat_of_lt (by omega), Nat.and_two_pow_sub_one_eq_mod]

theorem byteAt_toNat (index value : Word) :
    (if 32 ≤ index.toNat then 0 else (value.toNat >>> (8 * (31 - index.toNat))) &&& 255) =
      (byteAt index value).toNat := by
  have hsmall : value.toNat / 256 ^ (31 - index.toNat) % 256 < wordModulus :=
    Nat.lt_trans (Nat.mod_lt _ (by decide)) (by decide)
  unfold byteAt
  split
  · rfl
  · rw [toNat_ofNat_of_lt hsmall, Nat.shiftRight_eq_div_pow, Nat.pow_mul]
    exact Nat.and_two_pow_sub_one_eq_mod _ 8

theorem shiftSigned_toNat (shift value : Word) :
    shiftSigned shift.toNat value.toNat = (shiftArith shift value).toNat := by
  unfold shiftSigned shiftArith
  simp only [sign_bit_iff]
  split
  · split <;> rfl
  · rw [toNat_ofInt, signed_toNat, Int.shiftRight_eq_div_pow, Int.natCast_pow, Int.cast_ofNat_Int]

theorem xor_all_bits {n : Nat} (hn : n < wordModulus) :
    n ^^^ (wordModulus - 1) = wordModulus - 1 - n := by
  unfold wordModulus at hn ⊢
  rw [Nat.sub_sub, Nat.add_comm]
  apply Nat.eq_of_testBit_eq
  intro j
  rw [Nat.testBit_xor, Nat.testBit_two_pow_sub_one, Nat.testBit_two_pow_sub_succ hn]
  by_cases hj : j < 256
  · simp [hj]
  · have hnone : n.testBit j = false := Nat.testBit_lt_two_pow
      (Nat.lt_of_lt_of_le hn (Nat.pow_le_pow_right (by omega) (by omega)))
    simp [hj, hnone]

end Word

/-! ## Instructions -/

theorem UnaryOp.result_toNat (op : UnaryOp) (a : Word) :
    op.result a.toNat = (Word.unary op a).toNat := by
  have hlt := a.isLt
  cases op with
  | iszero => rw [UnaryOp.result, Word.unary, Word.toNat_ofBool]
  | not => rw [UnaryOp.result, Word.unary, Word.xor_all_bits hlt, Word.toNat_ofNat_of_lt (by omega)]

theorem TernaryOp.result_toNat (op : TernaryOp) (a b n : Word) :
    op.result a.toNat b.toNat n.toNat = (Word.ternary op a b n).toNat := by
  unfold TernaryOp.result Word.ternary
  split
  · rfl
  · rename_i hzero
    have hmod : ∀ m, m % n.toNat < wordModulus := fun m =>
      Nat.lt_trans (Nat.mod_lt m (by omega)) n.isLt
    cases op with
    | addmod | mulmod => rw [Word.toNat_ofNat_of_lt (hmod _)]

theorem BinaryOp.result_toNat (op : BinaryOp) (a b : Word) :
    op.result a.toNat b.toNat = (Word.binary op a b).toNat := by
  have ha := a.isLt
  have hb := b.isLt
  unfold BinaryOp.result Word.binary
  cases op with
  | add | mul => exact (Int.natCast_emod _ _).symm
  | sub => rw [Word.toNat_ofInt]
  | div =>
      have hquotient := Nat.lt_of_le_of_lt (Nat.div_le_self a.toNat b.toNat) ha
      dsimp only
      rw [Word.toNat_ofNat_of_lt hquotient]
      split
      · rename_i hzero
        rw [hzero, Nat.div_zero]
        rfl
      · rfl
  | sdiv => exact Word.signedDiv_toNat a b
  | mod =>
      dsimp only
      split
      · rfl
      · rw [Word.toNat_ofNat_of_lt (Nat.lt_of_le_of_lt (Nat.mod_le _ _) ha)]
  | smod => exact Word.signedMod_toNat a b
  | exp => rw [Word.toNat_ofNat, Word.powMod_mod]
  | signextend => rw [Word.extendSign_toNat]
  | lt | gt | eq => rw [Word.toNat_ofBool]
  | slt | sgt => rw [Word.toNat_ofBool, Word.signed_toNat, Word.signed_toNat]
  | and => rw [Word.toNat_ofNat_of_lt (Nat.and_lt_two_pow _ hb)]
  | or => rw [Word.toNat_ofNat_of_lt (Nat.or_lt_two_pow ha hb)]
  | xor => rw [Word.toNat_ofNat_of_lt (Nat.xor_lt_two_pow ha hb)]
  | byte => rw [← Word.byteAt_toNat]
  | shl =>
      dsimp only
      by_cases hshift : a.toNat < 256
      · rw [if_pos hshift, if_neg (Nat.not_le.2 hshift), Nat.shiftLeft_eq, wrapped]
        exact (Int.natCast_emod _ _).symm
      · rw [if_neg hshift, if_pos (Nat.not_lt.1 hshift)]
        rfl
  | shr =>
      have hshifted := Nat.lt_of_le_of_lt (Nat.div_le_self b.toNat (2 ^ a.toNat)) hb
      dsimp only
      by_cases hshift : a.toNat < 256
      · rw [if_pos hshift, if_neg (Nat.not_le.2 hshift), Word.toNat_ofNat_of_lt hshifted,
          Nat.shiftRight_eq_div_pow]
      · rw [if_neg hshift, if_pos (Nat.not_lt.1 hshift)]
        rfl
  | sar => exact Word.shiftSigned_toNat a b

end FlowCheck
