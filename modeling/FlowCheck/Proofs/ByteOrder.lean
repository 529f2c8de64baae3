import FlowCheck.Probe.Query
import FlowCheck.Proofs.Assembling

/-!
# Numbers as byte strings

In each width exactly the numbers below the power of the width have an encoding, numbers and byte
strings of that width correspond one to one, and the correspondence keeps the order: byte strings of
one length compare as their first different bytes do, and so do their numbers.  Zeros behind a byte
string shift its number, which is what an immediate that the end of the code cuts short stands for.
-/

namespace FlowCheck

namespace Bytes.BigEndian

variable {bs cs : List UInt8}

theorem decode_cons (b : UInt8) (bs : List UInt8) :
    decode (b :: bs) = b.toNat * 256 ^ bs.length + decode bs := by
  have happend := decode_append [b] bs
  simpa [decode] using happend

/-- Whatever follows, the greater first byte gives the greater number. -/
theorem decode_cons_lt {b c : UInt8} (hfirst : b.toNat < c.toNat)
    (hlength : bs.length = cs.length) : decode (b :: bs) < decode (c :: cs) := by
  have hrest := decode_lt bs
  rw [decode_cons, decode_cons, hlength]
  rw [hlength] at hrest
  calc b.toNat * 256 ^ cs.length + decode bs
      < b.toNat * 256 ^ cs.length + 256 ^ cs.length := Nat.add_lt_add_left hrest _
    _ = (b.toNat + 1) * 256 ^ cs.length := (Nat.succ_mul ..).symm
    _ ≤ c.toNat * 256 ^ cs.length := Nat.mul_le_mul_right _ hfirst
    _ ≤ c.toNat * 256 ^ cs.length + decode cs := Nat.le_add_right ..

/-- Numbers compare as their bytes do, from the first byte on. -/
theorem decode_lt_decode_iff (h : bs.length = cs.length) : decode bs < decode cs ↔ bs < cs := by
  induction bs generalizing cs with
  | nil =>
      obtain rfl : cs = [] := List.eq_nil_of_length_eq_zero h.symm
      exact ⟨fun hlt => absurd hlt (Nat.lt_irrefl _), fun hlt => absurd hlt (List.lt_irrefl _)⟩
  | cons b bs ih =>
      obtain ⟨c, cs, rfl⟩ := List.exists_cons_of_length_eq_add_one h.symm
      have hlength : bs.length = cs.length := by simpa using h
      rw [List.cons_lt_cons_iff, UInt8.lt_iff_toNat_lt, ← ih hlength]
      rcases Nat.lt_trichotomy b.toNat c.toNat with hlt | heq | hgt
      · exact iff_of_true (decode_cons_lt hlt hlength) (Or.inl hlt)
      · obtain rfl := UInt8.toNat_inj.1 heq
        rw [decode_cons, decode_cons, hlength]
        simp
      · refine iff_of_false (Nat.lt_asymm (decode_cons_lt hgt hlength.symm)) ?_
        rintro (hlt | ⟨rfl, -⟩)
        · exact Nat.lt_asymm hgt hlt
        · exact Nat.lt_irrefl _ hgt

theorem decode_zeros (n : Nat) : decode (List.replicate n 0) = 0 := by
  induction n with
  | zero => rfl
  | succ n ih => rw [List.replicate_succ, decode_cons, ih, UInt8.toNat_zero, Nat.zero_mul]

theorem decode_append_zeros (bs : List UInt8) (n : Nat) :
    decode (bs ++ List.replicate n 0) = decode bs * 256 ^ n := by
  rw [decode_append, decode_zeros, List.length_replicate, Nat.add_zero]

end Bytes.BigEndian

/-- The bytes behind the end of the code count as zeros. -/
theorem Program.decode_bytesAt (p : Program) (start width : Nat) :
    Bytes.BigEndian.decode (p.bytesAt start width) =
      Bytes.BigEndian.decode ((p.code.toList.drop start).take width) *
        256 ^ (width - (p.length - start)) := by
  rw [bytesAt_eq_padded, padded, Bytes.BigEndian.decode_append_zeros, List.length_drop,
    Array.length_toList]
  rfl

/-- A query encodes integers as the assembler does, as far as there is room for the width. -/
theorem Probe.encode_int {room : Room} {width : Nat} (v : Int) (hwidth : width ≤ room.bytes) :
    encode room (.int v) (.int width) = (Bytes.encodeValue (.int v) width).mapError .inr := by
  have hsign : (Value.int v).order? (.int 0) = some (some (compare v 0)) :=
    Value.order?_of_integer? rfl 0
  have hroom : ¬(room.bytes : Int) < width := by omega
  unfold encode Bytes.encodeValue
  cases hcompare : compare v 0 with
  | lt =>
      rw [hcompare] at hsign
      simp only [Bytes.encodeShown, hsign]
      rfl
  | eq | gt =>
      rw [hcompare] at hsign
      simp only [hsign, Value.integer?, hroom, if_false]
      cases Bytes.encodeShown (.int width) (.int v) width <;> rfl

namespace Bytes

open BigEndian

/-- The encoding of an integer in a width is the byte string of that width that stands for it. -/
theorem encodeValue_int_eq_ok_iff {v : Int} {width : Nat} {bytes : List UInt8} :
    encodeValue (.int v) width = .ok bytes ↔ bytes.length = width ∧ (decode bytes : Int) = v := by
  rw [encodeValue_eq_ok_iff]
  constructor
  · rintro ⟨n, hn, hfits, rfl⟩
    obtain rfl : v = n := by simpa [Value.integer?] using hn
    exact ⟨length_encode .., by rw [decode_encode width n hfits]⟩
  · rintro ⟨rfl, rfl⟩
    exact ⟨decode bytes, rfl, decode_lt bytes, (encode_decode bytes).symm⟩

theorem exists_encodeValue_int_iff {v : Int} {width : Nat} :
    (∃ bytes, encodeValue (.int v) width = .ok bytes) ↔ 0 ≤ v ∧ v < 256 ^ width := by
  have hpow : ((256 ^ width : Nat) : Int) = 256 ^ width := by simp
  rw [← hpow]
  constructor
  · rintro ⟨bytes, h⟩
    obtain ⟨rfl, rfl⟩ := encodeValue_int_eq_ok_iff.1 h
    exact ⟨Int.natCast_nonneg _, Int.ofNat_lt.2 (decode_lt bytes)⟩
  · rintro ⟨hnonneg, hfits⟩
    obtain ⟨n, rfl⟩ := Int.eq_ofNat_of_zero_le hnonneg
    have hdecoded := decode_encode width n (Int.ofNat_lt.1 hfits)
    exact ⟨encode width n, encodeValue_int_eq_ok_iff.2 ⟨length_encode .., by rw [hdecoded]⟩⟩

/-- The codec of immediates, in every width.  An integer has an encoding exactly if it is not
negative and below the power of the width; the encoding has as many bytes as the width and stands
for the integer.  Every byte string is the encoding of its number in its own length.  Integers
compare as their encodings do.  Zeros behind a byte string multiply its number by a power of 256,
and the bytes of an immediate that the code does not have are such zeros.  Queries encode in the same
way, as far as there is room for the width. -/
theorem codec_faithful :
    (∀ (v : Int) (width : Nat),
      ((∃ bytes, encodeValue (.int v) width = .ok bytes) ↔ 0 ≤ v ∧ v < 256 ^ width) ∧
      ∀ bytes, encodeValue (.int v) width = .ok bytes →
        bytes.length = width ∧ (decode bytes : Int) = v) ∧
    (∀ bytes, encodeValue (.int (decode bytes)) bytes.length = .ok bytes) ∧
    (∀ (v v' : Int) (width : Nat) (bytes bytes' : List UInt8),
      encodeValue (.int v) width = .ok bytes → encodeValue (.int v') width = .ok bytes' →
        (v < v' ↔ bytes < bytes')) ∧
    (∀ (bytes : List UInt8) (n : Nat),
      decode (bytes ++ List.replicate n 0) = decode bytes * 256 ^ n) ∧
    (∀ (p : Program) (start width : Nat), decode (p.bytesAt start width) =
      decode ((p.code.toList.drop start).take width) * 256 ^ (width - (p.length - start))) ∧
    ∀ (room : Probe.Room) (v : Int) (width : Nat), width ≤ room.bytes →
      Probe.encode room (.int v) (.int width) = (encodeValue (.int v) width).mapError .inr := by
  refine ⟨fun v width => ⟨exists_encodeValue_int_iff, fun bytes => encodeValue_int_eq_ok_iff.1⟩,
    fun bytes => encodeValue_int_eq_ok_iff.2 ⟨rfl, rfl⟩, fun v v' width bytes bytes' h h' => ?_,
    decode_append_zeros, Program.decode_bytesAt, fun room v width => Probe.encode_int v⟩
  obtain ⟨hlength, rfl⟩ := encodeValue_int_eq_ok_iff.1 h
  obtain ⟨hlength', rfl⟩ := encodeValue_int_eq_ok_iff.1 h'
  rw [Int.ofNat_lt]
  exact decode_lt_decode_iff (hlength.trans hlength'.symm)

/-- Two offsets whose second bytes decide which is the greater one. -/
theorem codec_faithful_offsets :
    encodeValue (.int 0x0102ff) 3 = .ok [0x01, 0x02, 0xff] ∧
    encodeValue (.int 0x010300) 3 = .ok [0x01, 0x03, 0x00] ∧
    ([0x01, 0x02, 0xff] : List UInt8) < [0x01, 0x03, 0x00] ∧
    Probe.encode ⟨3, 2 ^ 63⟩ (.int 0x010300) (.int 3) = .ok [0x01, 0x03, 0x00] := by
  obtain ⟨-, hencodes, horder, -, -, hquery⟩ := codec_faithful
  have hlow := hencodes [0x01, 0x02, 0xff]
  have hhigh := hencodes [0x01, 0x03, 0x00]
  exact ⟨hlow, hhigh, (horder _ _ 3 _ _ hlow hhigh).1 (by decide),
    (hquery ⟨3, 2 ^ 63⟩ 0x010300 3 (by decide)).trans (congrArg (Except.mapError .inr) hhigh)⟩

end Bytes

end FlowCheck
