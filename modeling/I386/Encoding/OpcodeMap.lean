import I386.Encoding.Mnemonic
import I386.Encoding.Shape
import I386.Width

/-!
Contract: what opcodes mean.

Owns:
- rows of the opcode maps: an operation, or a group of operations, with the form of its operands;
- the one-byte map, the two-byte map from `0F 80` to `0F BF`, and the members of the groups, which
  the register field of the ModR/M byte selects.

Does not own: prefixes and the escape byte, which have no row of their own.
-/

namespace I386

/-- The form of an encoding: its operand pattern and widths. -/
structure Form where
  shape : Shape
  width : WidthClass
  /-- The width of the source, where it is narrower than the destination. -/
  sourceWidth : Option WidthClass
deriving DecidableEq, Repr

/-- The groups: sets of operations that share opcodes. -/
inductive Group where
  | arithmetic
  | shift
  | unary
  | increment
  | indirect
deriving DecidableEq, Repr

/-- One operation of a group. Its extra pattern is decoded after the pattern of the row. -/
structure GroupMember where
  mnemonic : Mnemonic
  extra : Shape
deriving DecidableEq, Repr

/-- A row of an opcode map. -/
inductive Row where
  | unassigned
  | instruction (mnemonic : Mnemonic) (form : Form)
  | group (group : Group) (form : Form)
deriving DecidableEq, Repr

namespace Group

/-- All groups, in the order of their numbers, from 1. -/
def all : List Group :=
  [.arithmetic, .shift, .unary, .increment, .indirect]

/-- The members of a group, by the value of the register field. -/
def members : Group → List (Option GroupMember)
  | arithmetic =>
      [.add, .or, .adc, .sbb, .and, .sub, .xor, .cmp].map fun mnemonic =>
        some ⟨mnemonic, .implied⟩
  | shift =>
      [some .rol, some .ror, some .rcl, some .rcr, some .shl, some .shr, none, some .sar].map
        (Option.map (⟨·, .implied⟩))
  | unary =>
      [some ⟨.test, .groupImm⟩, none, some ⟨.not, .implied⟩, some ⟨.neg, .implied⟩,
        some ⟨.mul, .implied⟩, some ⟨.imul, .implied⟩, some ⟨.div, .implied⟩,
        some ⟨.idiv, .implied⟩]
  | increment =>
      [some ⟨.inc, .implied⟩, some ⟨.dec, .implied⟩, none, none, none, none, none, none]
  | indirect =>
      [some ⟨.inc, .implied⟩, some ⟨.dec, .implied⟩, some ⟨.call, .implied⟩, none,
        some ⟨.jmp, .implied⟩, none, some ⟨.push, .implied⟩, none]

/-- The member that a register field selects. -/
def member? (group : Group) (field : UInt8) : Option GroupMember :=
  (group.members[field.toNat]?).getD none

end Group

namespace Row

/-- The form of a row; an unassigned row has no operands. -/
def form : Row → Form
  | unassigned => ⟨.implied, .full, none⟩
  | instruction _ form => form
  | group _ form => form

end Row

namespace OpcodeMap

/-- A row of one operation. -/
def op (mnemonic : Mnemonic) (shape : Shape) (width : WidthClass) : Row :=
  .instruction mnemonic ⟨shape, width, none⟩

/-- A row of one operation with a narrower source. -/
def widening (mnemonic : Mnemonic) (source : WidthClass) : Row :=
  .instruction mnemonic ⟨.loadRmToReg, .full, some source⟩

/-- A row of a group. -/
def grp (group : Group) (shape : Shape) (width : WidthClass) : Row :=
  .group group ⟨shape, width, none⟩

/-- Rows without meaning. -/
def gap (count : Nat) : List Row :=
  List.replicate count .unassigned

/-- One pattern in both widths, bytes first. -/
def both (mnemonic : Mnemonic) (shape : Shape) : List Row :=
  [op mnemonic shape .byte, op mnemonic shape .full]

/-- The eight rows of a two-operand operation. The last two have no meaning here. -/
def arithmetic (mnemonic : Mnemonic) : List Row :=
  both mnemonic .regToRm ++ both mnemonic .rmToReg ++ both mnemonic .immToAcc ++ gap 2

/-- The same row for each register that an opcode can name. -/
def perRegister (mnemonic : Mnemonic) (shape : Shape) (width : WidthClass) : List Row :=
  List.replicate 8 (op mnemonic shape width)

/-- Branches on the sixteen conditions, in the order in which they are encoded. -/
def conditionalBranches : List Mnemonic :=
  [.jo, .jno, .jb, .jae, .je, .jne, .jbe, .ja, .js, .jns, .jp, .jnp, .jl, .jge, .jle, .jg]

/-- Settings of a byte by the sixteen conditions, in the order in which they are encoded. -/
def conditionalSettings : List Mnemonic :=
  [.seto, .setno, .setb, .setae, .sete, .setne, .setbe, .seta, .sets, .setns, .setp, .setnp,
    .setl, .setge, .setle, .setg]

/-- Rows `00` to `3F`: the two-operand operations. -/
def rows00 : List Row :=
  [Mnemonic.add, .or, .adc, .sbb, .and, .sub, .xor, .cmp].flatMap arithmetic

/-- Rows `40` to `7F`: operations on a register in the opcode, immediates and short branches. -/
def rows40 : List Row :=
  perRegister .inc .opcodeReg .full ++ perRegister .dec .opcodeReg .full ++
  perRegister .push .opcodeReg .full ++ perRegister .pop .opcodeReg .full ++
  gap 8 ++
  [op .push .imm .full, op .imul .rmImmToReg .full,
    op .push .signedImm .byte, op .imul .rmSignedImmToReg .full] ++
  gap 4 ++
  conditionalBranches.map (op · .branch .byte)

/-- Rows `80` to `BF`: moves, exchanges and string operations. -/
def rows80 : List Row :=
  [grp .arithmetic .immToRm .byte, grp .arithmetic .immToRm .full, .unassigned,
    grp .arithmetic .signedImmToRm .full] ++
  both .test .regToRm ++ both .xchg .regToRm ++
  both .mov .storeRegToRm ++ both .mov .loadRmToReg ++
  [.unassigned, op .lea .addressToReg .full, .unassigned, op .pop .storeToRm .full] ++
  [op .nop .implied .full] ++ List.replicate 7 (op .xchg .accWithOpcodeReg .full) ++
  [op .cwde .implied .full, op .cdq .implied .full] ++ gap 2 ++
  [op .pushf .implied .full, op .popf .implied .full,
    op .sahf .implied .byte, op .lahf .implied .byte] ++
  both .mov .offsetToAcc ++ both .mov .accToOffset ++
  both .movs .implied ++ both .cmps .implied ++
  both .test .immToAcc ++ both .stos .implied ++
  both .lods .implied ++ both .scas .implied ++
  perRegister .mov .storeImmToOpcodeReg .byte ++ perRegister .mov .storeImmToOpcodeReg .full

/-- Rows `C0` to `FF`: shifts, returns, loops, input and output, flags and the remaining groups. -/
def rowsC0 : List Row :=
  [grp .shift .shiftByImm .byte, grp .shift .shiftByImm .full] ++
  [op .ret .imm .word, op .ret .implied .full] ++ gap 2 ++ both .mov .storeImmToRm ++
  gap 1 ++ [op .leave .implied .full] ++ gap 2 ++
  [op .int3 .implied .byte, op .int .imm .byte] ++ gap 2 ++
  [grp .shift .shiftByOne .byte, grp .shift .shiftByOne .full,
    grp .shift .shiftByCl .byte, grp .shift .shiftByCl .full] ++ gap 12 ++
  [op .loopne .branch .byte, op .loope .branch .byte,
    op .loop .branch .byte, op .jecxz .branch .byte] ++
  both .input .inputImm ++ both .output .outputImm ++
  [op .call .branch .dword, op .jmp .branch .dword, .unassigned, op .jmp .branch .byte] ++
  both .input .inputDx ++ both .output .outputDx ++
  gap 4 ++ [op .hlt .implied .byte, op .cmc .implied .byte] ++
  [grp .unary .rm .byte, grp .unary .rm .full] ++
  [op .clc .implied .byte, op .stc .implied .byte, op .cli .implied .byte,
    op .sti .implied .byte, op .cld .implied .byte, op .std .implied .byte] ++
  [grp .increment .rm .byte, grp .indirect .rm .full]

/-- The one-byte map. -/
def oneByte : Array Row :=
  (rows00 ++ rows40 ++ rows80 ++ rowsC0).toArray

/-- The first row of the two-byte map has this second byte. -/
def twoByteStart : UInt8 := 0x80

/-- The two-byte map from `0F 80` on. -/
def twoByte : Array Row :=
  (conditionalBranches.map (op · .branch .dword) ++
  conditionalSettings.map (op · .storeToRm .byte) ++
  gap 4 ++ [op .shld .doubleShiftByImm .full, op .shld .doubleShiftByCl .full] ++ gap 6 ++
  [op .shrd .doubleShiftByImm .full, op .shrd .doubleShiftByCl .full] ++ gap 1 ++
  [op .imul .rmToReg .full] ++
  gap 6 ++ [widening .movzx .byte, widening .movzx .word] ++
  gap 6 ++ [widening .movsx .byte, widening .movsx .word]).toArray

/-- The row of a one-byte opcode. -/
def oneByteRow (opcode : UInt8) : Row :=
  (oneByte[opcode.toNat]?).getD .unassigned

/-- The row of the opcode `0F` followed by a byte. -/
def twoByteRow (second : UInt8) : Row :=
  if second < twoByteStart then .unassigned
  else (twoByte[(second - twoByteStart).toNat]?).getD .unassigned

end OpcodeMap

end I386
