import FlowCheck.Program

/-!
# Listings

Byte code read back as offsets, mnemonics and immediates.  An unrecognised byte is listed by value.
-/

namespace FlowCheck.Assembler

/-- A line of a listing. -/
structure ListingLine where
  /-- Where the instruction stands. -/
  offset : Nat
  /-- Its mnemonic, or a mark for an unrecognised byte. -/
  mnemonic : String
  /-- Its immediate, if it has one. -/
  immediate : Option Nat
  deriving DecidableEq

/-- The listing of a program. -/
def disassemble (p : Program) : List ListingLine :=
  p.listing.map (fun (pc, i) =>
    match i with
    | some i => ⟨pc, i.descriptor.mnemonic, i.immediate⟩
    | none =>
        ⟨pc, "UNKNOWN(0x" ++ Text.Hex.padded 2 (p.code.getD pc 0).toNat ++ ")", none⟩)

end FlowCheck.Assembler
