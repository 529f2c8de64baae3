/-!
# Memory

Byte-addressed memory that grows in words of 32 bytes and reads as zero where nothing was written.
-/

namespace FlowCheck

/-- The memory of a run. -/
structure Memory where
  /-- The bytes touched so far. -/
  bytes : Array UInt8

namespace Memory

/-- The memory of a fresh run. -/
def empty : Memory :=
  ⟨#[]⟩

/-- The number of bytes touched so far, rounded up to whole words. -/
def size (m : Memory) : Nat :=
  m.bytes.size

/-- The number of bytes of the words that cover `size` bytes. -/
def roundUp (size : Nat) : Nat :=
  (size + 31) / 32 * 32

/-- The memory grown to cover `size` bytes. -/
def grow (m : Memory) (size : Nat) : Memory :=
  ⟨m.bytes ++ Array.replicate (roundUp size - m.bytes.size) 0⟩

/-- The bytes of a range. -/
def read (m : Memory) (offset size : Nat) : Array UInt8 :=
  m.bytes.extract offset (offset + size)

/-- Writes bytes one after the other from an offset on. -/
def writeFrom (bytes : Array UInt8) (offset : Nat) : List UInt8 → Array UInt8
  | [] => bytes
  | b :: bs => writeFrom (bytes.setIfInBounds offset b) (offset + 1) bs

/-- The memory with bytes written from an offset on. -/
def write (m : Memory) (offset : Nat) (bs : List UInt8) : Memory :=
  ⟨writeFrom m.bytes offset bs⟩

end Memory

end FlowCheck
