/-!
Contract: the operations that instructions name.

Owns:
- the mnemonics, in a fixed order;
- their spelling.

Does not own: which opcode means which operation.
-/

namespace I386

/-- The operation of an instruction. -/
inductive Mnemonic where
  | add | or | adc | sbb | and | sub | xor | cmp | inc | dec | push | pop | mul | imul
  | div | idiv | not | neg | test | xchg | mov | movzx | movsx | lea | nop | cwde | cdq
  | pushf | popf | sahf | lahf | movs | cmps | stos | lods | scas | ret | leave | int3
  | int | hlt | cmc | clc | stc | cli | sti | cld | std | rol | ror | rcl | rcr | shl
  | shr | sar | shld | shrd | jo | jno | jb | jae | je | jne | jbe | ja | js | jns | jp
  | jnp | jl | jge | jle | jg | jmp | call | loopne | loope | loop | jecxz | input
  | output | seto | setno | setb | setae | sete | setne | setbe | seta | sets | setns
  | setp | setnp | setl | setge | setle | setg
deriving DecidableEq, Repr

namespace Mnemonic

/-- All mnemonics, in order. -/
def all : List Mnemonic :=
  [.add, .or, .adc, .sbb, .and, .sub, .xor, .cmp, .inc, .dec, .push, .pop, .mul, .imul,
    .div, .idiv, .not, .neg, .test, .xchg, .mov, .movzx, .movsx, .lea, .nop, .cwde, .cdq,
    .pushf, .popf, .sahf, .lahf, .movs, .cmps, .stos, .lods, .scas, .ret, .leave, .int3,
    .int, .hlt, .cmc, .clc, .stc, .cli, .sti, .cld, .std, .rol, .ror, .rcl, .rcr, .shl,
    .shr, .sar, .shld, .shrd, .jo, .jno, .jb, .jae, .je, .jne, .jbe, .ja, .js, .jns, .jp,
    .jnp, .jl, .jge, .jle, .jg, .jmp, .call, .loopne, .loope, .loop, .jecxz, .input,
    .output, .seto, .setno, .setb, .setae, .sete, .setne, .setbe, .seta, .sets, .setns,
    .setp, .setnp, .setl, .setge, .setle, .setg]

/-- The spelling of a mnemonic. -/
def text : Mnemonic → String
  | add => "add"
  | or => "or"
  | adc => "adc"
  | sbb => "sbb"
  | and => "and"
  | sub => "sub"
  | xor => "xor"
  | cmp => "cmp"
  | inc => "inc"
  | dec => "dec"
  | push => "push"
  | pop => "pop"
  | mul => "mul"
  | imul => "imul"
  | div => "div"
  | idiv => "idiv"
  | not => "not"
  | neg => "neg"
  | test => "test"
  | xchg => "xchg"
  | mov => "mov"
  | movzx => "movzx"
  | movsx => "movsx"
  | lea => "lea"
  | nop => "nop"
  | cwde => "cwde"
  | cdq => "cdq"
  | pushf => "pushf"
  | popf => "popf"
  | sahf => "sahf"
  | lahf => "lahf"
  | movs => "movs"
  | cmps => "cmps"
  | stos => "stos"
  | lods => "lods"
  | scas => "scas"
  | ret => "ret"
  | leave => "leave"
  | int3 => "int3"
  | int => "int"
  | hlt => "hlt"
  | cmc => "cmc"
  | clc => "clc"
  | stc => "stc"
  | cli => "cli"
  | sti => "sti"
  | cld => "cld"
  | std => "std"
  | rol => "rol"
  | ror => "ror"
  | rcl => "rcl"
  | rcr => "rcr"
  | shl => "shl"
  | shr => "shr"
  | sar => "sar"
  | shld => "shld"
  | shrd => "shrd"
  | jo => "jo"
  | jno => "jno"
  | jb => "jb"
  | jae => "jae"
  | je => "je"
  | jne => "jne"
  | jbe => "jbe"
  | ja => "ja"
  | js => "js"
  | jns => "jns"
  | jp => "jp"
  | jnp => "jnp"
  | jl => "jl"
  | jge => "jge"
  | jle => "jle"
  | jg => "jg"
  | jmp => "jmp"
  | call => "call"
  | loopne => "loopne"
  | loope => "loope"
  | loop => "loop"
  | jecxz => "jecxz"
  | input => "in"
  | output => "out"
  | seto => "seto"
  | setno => "setno"
  | setb => "setb"
  | setae => "setae"
  | sete => "sete"
  | setne => "setne"
  | setbe => "setbe"
  | seta => "seta"
  | sets => "sets"
  | setns => "setns"
  | setp => "setp"
  | setnp => "setnp"
  | setl => "setl"
  | setge => "setge"
  | setle => "setle"
  | setg => "setg"

/-- The spelling of an operation that may be missing. -/
def optionText : Option Mnemonic → String
  | none => "invalid"
  | some mnemonic => mnemonic.text

end Mnemonic

end I386
