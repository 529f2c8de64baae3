import FlowCheck.Arithmetic

/-!
# Big-endian numbers

Unsigned numbers as byte strings of a fixed width, most significant byte first.
-/

namespace FlowCheck.Bytes.BigEndian

/-- The number that a byte string stands for. -/
def decode (bs : List UInt8) : Nat :=
  bs.foldl (fun n b => 256 * n + b.toNat) 0

/-- The low `width` bytes of a number. -/
def encode : (width : Nat) → Nat → List UInt8
  | 0, _ => []
  | width + 1, n => encode width (n / 256) ++ [UInt8.ofNat (n % 256)]

/-- The bytes of an integer that fits in `width` bytes. -/
def encode? (width : Nat) (n : Int) : Option (List UInt8) :=
  if 0 ≤ n ∧ n < 256 ^ width then some (encode width n.toNat) else none

theorem decode_nil : decode [] = 0 := rfl

theorem decode_append_singleton (bs : List UInt8) (b : UInt8) :
    decode (bs ++ [b]) = 256 * decode bs + b.toNat := by
  simp [decode]

theorem length_encode (width n : Nat) : (encode width n).length = width := by
  induction width generalizing n with
  | zero => rfl
  | succ width ih => simp [encode, ih]

theorem decode_encode (width n : Nat) (h : n < 256 ^ width) : decode (encode width n) = n := by
  induction width generalizing n with
  | zero => simp at h; simp [encode, decode, h]
  | succ width ih =>
      have hdiv : n / 256 < 256 ^ width := by
        rw [Nat.pow_succ] at h
        exact Nat.div_lt_of_lt_mul (by omega)
      rw [encode, decode_append_singleton, ih _ hdiv]
      simp
      omega

/-- A byte string is the encoding of its number in its own width. -/
theorem encode_decode (bs : List UInt8) : encode bs.length (decode bs) = bs := by
  -- the last byte is the remainder of the number, the bytes before it are the quotient
  suffices h : ∀ rev : List UInt8, encode rev.length (decode rev.reverse) = rev.reverse by
    simpa using h bs.reverse
  intro rev
  induction rev with
  | nil => rfl
  | cons b rest ih =>
      have hb : b.toNat < 256 := b.toNat_lt
      have hdiv : (256 * decode rest.reverse + b.toNat) / 256 = decode rest.reverse := by omega
      have hmod : (256 * decode rest.reverse + b.toNat) % 256 = b.toNat := by omega
      rw [List.reverse_cons, decode_append_singleton, List.length_cons, encode, hdiv, hmod, ih,
        UInt8.ofNat_toNat]

theorem decode_append (bs cs : List UInt8) :
    decode (bs ++ cs) = decode bs * 256 ^ cs.length + decode cs := by
  suffices h : ∀ rev : List UInt8,
      decode (bs ++ rev.reverse) = decode bs * 256 ^ rev.length + decode rev.reverse by
    simpa using h cs.reverse
  intro rev
  induction rev with
  | nil => simp [decode_nil]
  | cons c rest ih =>
      have hpow : 256 * (decode bs * 256 ^ rest.length) = decode bs * 256 ^ (rest.length + 1) := by
        rw [Nat.pow_succ, Nat.mul_left_comm, Nat.mul_comm 256]
      rw [List.reverse_cons, ← List.append_assoc, decode_append_singleton, ih,
        decode_append_singleton, List.length_cons, Nat.mul_add, hpow, Nat.add_assoc]

/-- A byte string stands for a number below the power of its length. -/
theorem decode_lt (bs : List UInt8) : decode bs < 256 ^ bs.length := by
  have hfold : ∀ (l : List UInt8) (n : Nat),
      l.foldl (fun n b => 256 * n + b.toNat) n < 256 ^ l.length * (n + 1) := by
    intro l
    induction l with
    | nil => simp
    | cons b rest ih =>
        intro n
        have hb : b.toNat < 256 := b.toNat_lt
        have hrest := ih (256 * n + b.toNat)
        have hstep : 256 ^ rest.length * (256 * n + b.toNat + 1) ≤
            256 ^ rest.length * (256 * (n + 1)) := Nat.mul_le_mul_left _ (by omega)
        rw [List.foldl_cons, List.length_cons, Nat.pow_succ, Nat.mul_assoc]
        omega
  simpa [decode] using hfold bs 0

end FlowCheck.Bytes.BigEndian
