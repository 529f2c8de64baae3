/-!
# Opcodes

The recognised instructions of the byte code, grouped by what they compute, with the byte and the
mnemonic of each.  A byte outside the table, and the designated invalid byte `0xFE`, is no opcode.
-/

namespace FlowCheck

/-- Instructions that replace two words by one computed from them. -/
inductive BinaryOp where
  | add | mul | sub | div | sdiv | mod | smod | exp | signextend
  | lt | gt | slt | sgt | eq | and | or | xor | byte | shl | shr | sar
  deriving DecidableEq

/-- Instructions that replace one word by one computed from it. -/
inductive UnaryOp where
  | iszero | not
  deriving DecidableEq

/-- Instructions that replace three words by one computed from them. -/
inductive TernaryOp where
  | addmod | mulmod
  deriving DecidableEq

/-- Instructions that need a surrounding chain, which the reference machine does not have. -/
inductive HostOp where
  | sha3 | address | balance | origin | caller | calldatacopy | codecopy | gasprice
  | extcodesize | extcodecopy | returndatasize | returndatacopy | extcodehash | blockhash
  | coinbase | timestamp | number | difficulty | gaslimit | chainid | selfbalance
  | sload | sstore | gas | log (topics : Fin 5)
  | create | call | callcode | delegatecall | create2 | staticcall
  deriving DecidableEq

/-- The recognised instructions.  `push n` carries `n + 1` immediate bytes, `dup n` copies the item
below `n` others, and `swap n` exchanges the top with the item below it and `n` others. -/
inductive Opcode where
  | stop | ret | revert | selfdestruct
  | unary (op : UnaryOp) | binary (op : BinaryOp) | ternary (op : TernaryOp) | host (op : HostOp)
  | callvalue | calldataload | calldatasize | codesize
  | pop | mload | mstore | mstore8 | pc | msize
  | jump | jumpi | jumpdest | beginsub | jumpsub | returnsub
  | push (n : Fin 32) | dup (n : Fin 16) | swap (n : Fin 16)
  deriving DecidableEq

namespace BinaryOp

/-- The byte of a two-operand instruction. -/
def toByte : BinaryOp → UInt8
  | add => 0x01 | mul => 0x02 | sub => 0x03 | div => 0x04 | sdiv => 0x05 | mod => 0x06
  | smod => 0x07 | exp => 0x0A | signextend => 0x0B
  | lt => 0x10 | gt => 0x11 | slt => 0x12 | sgt => 0x13 | eq => 0x14
  | and => 0x16 | or => 0x17 | xor => 0x18 | byte => 0x1A | shl => 0x1B | shr => 0x1C | sar => 0x1D

/-- The mnemonic of a two-operand instruction. -/
def mnemonic : BinaryOp → String
  | add => "ADD" | mul => "MUL" | sub => "SUB" | div => "DIV" | sdiv => "SDIV" | mod => "MOD"
  | smod => "SMOD" | exp => "EXP" | signextend => "SIGNEXTEND"
  | lt => "LT" | gt => "GT" | slt => "SLT" | sgt => "SGT" | eq => "EQ"
  | and => "AND" | or => "OR" | xor => "XOR" | byte => "BYTE" | shl => "SHL" | shr => "SHR"
  | sar => "SAR"

end BinaryOp

namespace UnaryOp

/-- The byte of a one-operand instruction. -/
def toByte : UnaryOp → UInt8
  | iszero => 0x15 | not => 0x19

/-- The mnemonic of a one-operand instruction. -/
def mnemonic : UnaryOp → String
  | iszero => "ISZERO" | not => "NOT"

end UnaryOp

namespace TernaryOp

/-- The byte of a three-operand instruction. -/
def toByte : TernaryOp → UInt8
  | addmod => 0x08 | mulmod => 0x09

/-- The mnemonic of a three-operand instruction. -/
def mnemonic : TernaryOp → String
  | addmod => "ADDMOD" | mulmod => "MULMOD"

end TernaryOp

namespace HostOp

/-- The byte of a chain instruction. -/
def toByte : HostOp → UInt8
  | sha3 => 0x20 | address => 0x30 | balance => 0x31 | origin => 0x32 | caller => 0x33
  | calldatacopy => 0x37 | codecopy => 0x39 | gasprice => 0x3A | extcodesize => 0x3B
  | extcodecopy => 0x3C | returndatasize => 0x3D | returndatacopy => 0x3E | extcodehash => 0x3F
  | blockhash => 0x40 | coinbase => 0x41 | timestamp => 0x42 | number => 0x43
  | difficulty => 0x44 | gaslimit => 0x45 | chainid => 0x46 | selfbalance => 0x47
  | sload => 0x54 | sstore => 0x55 | gas => 0x5A
  | log topics => UInt8.ofNat (0xA0 + topics.val)
  | create => 0xF0 | call => 0xF1 | callcode => 0xF2 | delegatecall => 0xF4 | create2 => 0xF5
  | staticcall => 0xFA

/-- The mnemonic of a chain instruction. -/
def mnemonic : HostOp → String
  | sha3 => "SHA3" | address => "ADDRESS" | balance => "BALANCE" | origin => "ORIGIN"
  | caller => "CALLER" | calldatacopy => "CALLDATACOPY" | codecopy => "CODECOPY"
  | gasprice => "GASPRICE" | extcodesize => "EXTCODESIZE" | extcodecopy => "EXTCODECOPY"
  | returndatasize => "RETURNDATASIZE" | returndatacopy => "RETURNDATACOPY"
  | extcodehash => "EXTCODEHASH" | blockhash => "BLOCKHASH" | coinbase => "COINBASE"
  | timestamp => "TIMESTAMP" | number => "NUMBER" | difficulty => "DIFFICULTY"
  | gaslimit => "GASLIMIT" | chainid => "CHAINID" | selfbalance => "SELFBALANCE"
  | sload => "SLOAD" | sstore => "SSTORE" | gas => "GAS"
  | log topics => "LOG" ++ Nat.repr topics.val
  | create => "CREATE" | call => "CALL" | callcode => "CALLCODE" | delegatecall => "DELEGATECALL"
  | create2 => "CREATE2" | staticcall => "STATICCALL"

/-- How many words a chain instruction takes. -/
def inputs : HostOp → Nat
  | sha3 => 2 | balance | extcodesize | extcodehash | blockhash | sload => 1
  | calldatacopy | codecopy | returndatacopy => 3 | extcodecopy => 4 | sstore => 2
  | log topics => topics.val + 2
  | create => 3 | create2 => 4 | call | callcode => 7 | delegatecall | staticcall => 6
  | address | origin | caller | gasprice | returndatasize | coinbase | timestamp | number
  | difficulty | gaslimit | chainid | selfbalance | gas => 0

/-- How many words a chain instruction leaves. -/
def outputs : HostOp → Nat
  | calldatacopy | codecopy | returndatacopy | extcodecopy | sstore | log _ => 0
  | _ => 1

end HostOp

namespace Opcode

/-- The byte of an opcode. -/
def toByte : Opcode → UInt8
  | stop => 0x00 | ret => 0xF3 | revert => 0xFD | selfdestruct => 0xFF
  | unary op => op.toByte | binary op => op.toByte | ternary op => op.toByte | host op => op.toByte
  | callvalue => 0x34 | calldataload => 0x35 | calldatasize => 0x36 | codesize => 0x38
  | pop => 0x50 | mload => 0x51 | mstore => 0x52 | mstore8 => 0x53
  | jump => 0x56 | jumpi => 0x57 | pc => 0x58 | msize => 0x59 | jumpdest => 0x5B
  | beginsub => 0x5C | jumpsub => 0x5D | returnsub => 0x5E
  | push n => UInt8.ofNat (0x60 + n.val)
  | dup n => UInt8.ofNat (0x80 + n.val)
  | swap n => UInt8.ofNat (0x90 + n.val)

/-- The mnemonic of an opcode. -/
def mnemonic : Opcode → String
  | stop => "STOP" | ret => "RETURN" | revert => "REVERT" | selfdestruct => "SELFDESTRUCT"
  | unary op => op.mnemonic | binary op => op.mnemonic | ternary op => op.mnemonic
  | host op => op.mnemonic
  | callvalue => "CALLVALUE" | calldataload => "CALLDATALOAD" | calldatasize => "CALLDATASIZE"
  | codesize => "CODESIZE" | pop => "POP" | mload => "MLOAD" | mstore => "MSTORE"
  | mstore8 => "MSTORE8" | jump => "JUMP" | jumpi => "JUMPI" | pc => "PC" | msize => "MSIZE"
  | jumpdest => "JUMPDEST" | beginsub => "BEGINSUB" | jumpsub => "JUMPSUB"
  | returnsub => "RETURNSUB"
  | push n => "PUSH" ++ Nat.repr (n.val + 1)
  | dup n => "DUP" ++ Nat.repr (n.val + 1)
  | swap n => "SWAP" ++ Nat.repr (n.val + 1)

/-- The opcodes outside the three numbered families of the stack, by byte. -/
def ofFixedByte? : Nat → Option Opcode
  | 0x00 => some stop
  | 0x01 => some (binary .add) | 0x02 => some (binary .mul) | 0x03 => some (binary .sub)
  | 0x04 => some (binary .div) | 0x05 => some (binary .sdiv) | 0x06 => some (binary .mod)
  | 0x07 => some (binary .smod) | 0x08 => some (ternary .addmod) | 0x09 => some (ternary .mulmod)
  | 0x0A => some (binary .exp) | 0x0B => some (binary .signextend)
  | 0x10 => some (binary .lt) | 0x11 => some (binary .gt) | 0x12 => some (binary .slt)
  | 0x13 => some (binary .sgt) | 0x14 => some (binary .eq) | 0x15 => some (unary .iszero)
  | 0x16 => some (binary .and) | 0x17 => some (binary .or) | 0x18 => some (binary .xor)
  | 0x19 => some (unary .not) | 0x1A => some (binary .byte) | 0x1B => some (binary .shl)
  | 0x1C => some (binary .shr) | 0x1D => some (binary .sar)
  | 0x20 => some (host .sha3)
  | 0x30 => some (host .address) | 0x31 => some (host .balance) | 0x32 => some (host .origin)
  | 0x33 => some (host .caller) | 0x34 => some callvalue | 0x35 => some calldataload
  | 0x36 => some calldatasize | 0x37 => some (host .calldatacopy) | 0x38 => some codesize
  | 0x39 => some (host .codecopy) | 0x3A => some (host .gasprice)
  | 0x3B => some (host .extcodesize) | 0x3C => some (host .extcodecopy)
  | 0x3D => some (host .returndatasize) | 0x3E => some (host .returndatacopy)
  | 0x3F => some (host .extcodehash) | 0x40 => some (host .blockhash)
  | 0x41 => some (host .coinbase) | 0x42 => some (host .timestamp) | 0x43 => some (host .number)
  | 0x44 => some (host .difficulty) | 0x45 => some (host .gaslimit) | 0x46 => some (host .chainid)
  | 0x47 => some (host .selfbalance)
  | 0x50 => some pop | 0x51 => some mload | 0x52 => some mstore | 0x53 => some mstore8
  | 0x54 => some (host .sload) | 0x55 => some (host .sstore) | 0x56 => some jump
  | 0x57 => some jumpi | 0x58 => some pc | 0x59 => some msize | 0x5A => some (host .gas)
  | 0x5B => some jumpdest | 0x5C => some beginsub | 0x5D => some jumpsub | 0x5E => some returnsub
  | 0xA0 => some (host (.log 0)) | 0xA1 => some (host (.log 1)) | 0xA2 => some (host (.log 2))
  | 0xA3 => some (host (.log 3)) | 0xA4 => some (host (.log 4))
  | 0xF0 => some (host .create) | 0xF1 => some (host .call) | 0xF2 => some (host .callcode)
  | 0xF3 => some ret | 0xF4 => some (host .delegatecall) | 0xF5 => some (host .create2)
  | 0xFA => some (host .staticcall) | 0xFD => some revert | 0xFF => some selfdestruct
  | _ => none

/-- The opcode of a byte, if the byte is recognised. -/
def ofByte? (b : UInt8) : Option Opcode :=
  let n := b.toNat
  if h : 0x60 ≤ n ∧ n < 0x80 then some (push ⟨n - 0x60, by omega⟩)
  else if h : 0x80 ≤ n ∧ n < 0x90 then some (dup ⟨n - 0x80, by omega⟩)
  else if h : 0x90 ≤ n ∧ n < 0xA0 then some (swap ⟨n - 0x90, by omega⟩)
  else ofFixedByte? n

/-- Every opcode, in the order of the bytes. -/
def all : List Opcode :=
  (List.range 256).filterMap (fun n => ofByte? (UInt8.ofNat n))

end Opcode

end FlowCheck
