/-!
The opcodes that an assembler can name, with their byte, mnemonic and operand layout. Encoding
forms such as short loads and wide jumps are left to a class-file writer.
-/

namespace Bytecode

/-- The operands an opcode is written with. -/
inductive OperandShape where
  | none
  | int
  | slot
  | increment
  | jump
  | constant
  | type
  | field
  | method
  | callSite
  | tableSwitch
  | lookupSwitch
  | arrayDimensions
  deriving DecidableEq, Repr

namespace OperandShape

def text : OperandShape → String
  | none => "None"
  | int => "Int"
  | slot => "Var"
  | increment => "Iinc"
  | jump => "Jump"
  | constant => "Ldc"
  | type => "Type"
  | field => "Field"
  | method => "Method"
  | callSite => "InvokeDynamic"
  | tableSwitch => "TableSwitch"
  | lookupSwitch => "LookupSwitch"
  | arrayDimensions => "MultiANewArray"

end OperandShape

inductive Opcode where
  | nop | aconstNull | iconstM1 | iconst0 | iconst1 | iconst2 | iconst3 | iconst4 | iconst5
  | lconst0 | lconst1 | fconst0 | fconst1 | fconst2 | dconst0 | dconst1 | bipush | sipush | ldc
  | iload | lload | fload | dload | aload | iaload | laload | faload | daload | aaload | baload
  | caload | saload | istore | lstore | fstore | dstore | astore | iastore | lastore | fastore
  | dastore | aastore | bastore | castore | sastore | pop | pop2 | dup | dupX1 | dupX2 | dup2
  | dup2X1 | dup2X2 | swap | iadd | ladd | fadd | dadd | isub | lsub | fsub | dsub | imul | lmul
  | fmul | dmul | idiv | ldiv | fdiv | ddiv | irem | lrem | frem | drem | ineg | lneg | fneg
  | dneg | ishl | lshl | ishr | lshr | iushr | lushr | iand | land | ior | lor | ixor | lxor
  | iinc | i2l | i2f | i2d | l2i | l2f | l2d | f2i | f2l | f2d | d2i | d2l | d2f | i2b | i2c
  | i2s | lcmp | fcmpl | fcmpg | dcmpl | dcmpg | ifeq | ifne | iflt | ifge | ifgt | ifle
  | ifIcmpeq | ifIcmpne | ifIcmplt | ifIcmpge | ifIcmpgt | ifIcmple | ifAcmpeq | ifAcmpne | goto
  | jsr | ret | tableSwitch | lookupSwitch | ireturn | lreturn | freturn | dreturn | areturn
  | returnVoid | getStatic | putStatic | getField | putField | invokeVirtual | invokeSpecial
  | invokeStatic | invokeInterface | invokeDynamic | new | newArray | newRefArray | arrayLength
  | athrow | checkCast | instanceOf | monitorEnter | monitorExit | multiNewArray | ifnull
  | ifnonnull
  deriving DecidableEq, Repr

namespace Opcode

structure Encoding where
  code : UInt8
  mnemonic : String
  operands : OperandShape

def encoding : Opcode → Encoding
  | .nop => ⟨0x00, "NOP", .none⟩
  | .aconstNull => ⟨0x01, "ACONST_NULL", .none⟩
  | .iconstM1 => ⟨0x02, "ICONST_M1", .none⟩
  | .iconst0 => ⟨0x03, "ICONST_0", .none⟩
  | .iconst1 => ⟨0x04, "ICONST_1", .none⟩
  | .iconst2 => ⟨0x05, "ICONST_2", .none⟩
  | .iconst3 => ⟨0x06, "ICONST_3", .none⟩
  | .iconst4 => ⟨0x07, "ICONST_4", .none⟩
  | .iconst5 => ⟨0x08, "ICONST_5", .none⟩
  | .lconst0 => ⟨0x09, "LCONST_0", .none⟩
  | .lconst1 => ⟨0x0a, "LCONST_1", .none⟩
  | .fconst0 => ⟨0x0b, "FCONST_0", .none⟩
  | .fconst1 => ⟨0x0c, "FCONST_1", .none⟩
  | .fconst2 => ⟨0x0d, "FCONST_2", .none⟩
  | .dconst0 => ⟨0x0e, "DCONST_0", .none⟩
  | .dconst1 => ⟨0x0f, "DCONST_1", .none⟩
  | .bipush => ⟨0x10, "BIPUSH", .int⟩
  | .sipush => ⟨0x11, "SIPUSH", .int⟩
  | .ldc => ⟨0x12, "LDC", .constant⟩
  | .iload => ⟨0x15, "ILOAD", .slot⟩
  | .lload => ⟨0x16, "LLOAD", .slot⟩
  | .fload => ⟨0x17, "FLOAD", .slot⟩
  | .dload => ⟨0x18, "DLOAD", .slot⟩
  | .aload => ⟨0x19, "ALOAD", .slot⟩
  | .iaload => ⟨0x2e, "IALOAD", .none⟩
  | .laload => ⟨0x2f, "LALOAD", .none⟩
  | .faload => ⟨0x30, "FALOAD", .none⟩
  | .daload => ⟨0x31, "DALOAD", .none⟩
  | .aaload => ⟨0x32, "AALOAD", .none⟩
  | .baload => ⟨0x33, "BALOAD", .none⟩
  | .caload => ⟨0x34, "CALOAD", .none⟩
  | .saload => ⟨0x35, "SALOAD", .none⟩
  | .istore => ⟨0x36, "ISTORE", .slot⟩
  | .lstore => ⟨0x37, "LSTORE", .slot⟩
  | .fstore => ⟨0x38, "FSTORE", .slot⟩
  | .dstore => ⟨0x39, "DSTORE", .slot⟩
  | .astore => ⟨0x3a, "ASTORE", .slot⟩
  | .iastore => ⟨0x4f, "IASTORE", .none⟩
  | .lastore => ⟨0x50, "LASTORE", .none⟩
  | .fastore => ⟨0x51, "FASTORE", .none⟩
  | .dastore => ⟨0x52, "DASTORE", .none⟩
  | .aastore => ⟨0x53, "AASTORE", .none⟩
  | .bastore => ⟨0x54, "BASTORE", .none⟩
  | .castore => ⟨0x55, "CASTORE", .none⟩
  | .sastore => ⟨0x56, "SASTORE", .none⟩
  | .pop => ⟨0x57, "POP", .none⟩
  | .pop2 => ⟨0x58, "POP2", .none⟩
  | .dup => ⟨0x59, "DUP", .none⟩
  | .dupX1 => ⟨0x5a, "DUP_X1", .none⟩
  | .dupX2 => ⟨0x5b, "DUP_X2", .none⟩
  | .dup2 => ⟨0x5c, "DUP2", .none⟩
  | .dup2X1 => ⟨0x5d, "DUP2_X1", .none⟩
  | .dup2X2 => ⟨0x5e, "DUP2_X2", .none⟩
  | .swap => ⟨0x5f, "SWAP", .none⟩
  | .iadd => ⟨0x60, "IADD", .none⟩
  | .ladd => ⟨0x61, "LADD", .none⟩
  | .fadd => ⟨0x62, "FADD", .none⟩
  | .dadd => ⟨0x63, "DADD", .none⟩
  | .isub => ⟨0x64, "ISUB", .none⟩
  | .lsub => ⟨0x65, "LSUB", .none⟩
  | .fsub => ⟨0x66, "FSUB", .none⟩
  | .dsub => ⟨0x67, "DSUB", .none⟩
  | .imul => ⟨0x68, "IMUL", .none⟩
  | .lmul => ⟨0x69, "LMUL", .none⟩
  | .fmul => ⟨0x6a, "FMUL", .none⟩
  | .dmul => ⟨0x6b, "DMUL", .none⟩
  | .idiv => ⟨0x6c, "IDIV", .none⟩
  | .ldiv => ⟨0x6d, "LDIV", .none⟩
  | .fdiv => ⟨0x6e, "FDIV", .none⟩
  | .ddiv => ⟨0x6f, "DDIV", .none⟩
  | .irem => ⟨0x70, "IREM", .none⟩
  | .lrem => ⟨0x71, "LREM", .none⟩
  | .frem => ⟨0x72, "FREM", .none⟩
  | .drem => ⟨0x73, "DREM", .none⟩
  | .ineg => ⟨0x74, "INEG", .none⟩
  | .lneg => ⟨0x75, "LNEG", .none⟩
  | .fneg => ⟨0x76, "FNEG", .none⟩
  | .dneg => ⟨0x77, "DNEG", .none⟩
  | .ishl => ⟨0x78, "ISHL", .none⟩
  | .lshl => ⟨0x79, "LSHL", .none⟩
  | .ishr => ⟨0x7a, "ISHR", .none⟩
  | .lshr => ⟨0x7b, "LSHR", .none⟩
  | .iushr => ⟨0x7c, "IUSHR", .none⟩
  | .lushr => ⟨0x7d, "LUSHR", .none⟩
  | .iand => ⟨0x7e, "IAND", .none⟩
  | .land => ⟨0x7f, "LAND", .none⟩
  | .ior => ⟨0x80, "IOR", .none⟩
  | .lor => ⟨0x81, "LOR", .none⟩
  | .ixor => ⟨0x82, "IXOR", .none⟩
  | .lxor => ⟨0x83, "LXOR", .none⟩
  | .iinc => ⟨0x84, "IINC", .increment⟩
  | .i2l => ⟨0x85, "I2L", .none⟩
  | .i2f => ⟨0x86, "I2F", .none⟩
  | .i2d => ⟨0x87, "I2D", .none⟩
  | .l2i => ⟨0x88, "L2I", .none⟩
  | .l2f => ⟨0x89, "L2F", .none⟩
  | .l2d => ⟨0x8a, "L2D", .none⟩
  | .f2i => ⟨0x8b, "F2I", .none⟩
  | .f2l => ⟨0x8c, "F2L", .none⟩
  | .f2d => ⟨0x8d, "F2D", .none⟩
  | .d2i => ⟨0x8e, "D2I", .none⟩
  | .d2l => ⟨0x8f, "D2L", .none⟩
  | .d2f => ⟨0x90, "D2F", .none⟩
  | .i2b => ⟨0x91, "I2B", .none⟩
  | .i2c => ⟨0x92, "I2C", .none⟩
  | .i2s => ⟨0x93, "I2S", .none⟩
  | .lcmp => ⟨0x94, "LCMP", .none⟩
  | .fcmpl => ⟨0x95, "FCMPL", .none⟩
  | .fcmpg => ⟨0x96, "FCMPG", .none⟩
  | .dcmpl => ⟨0x97, "DCMPL", .none⟩
  | .dcmpg => ⟨0x98, "DCMPG", .none⟩
  | .ifeq => ⟨0x99, "IFEQ", .jump⟩
  | .ifne => ⟨0x9a, "IFNE", .jump⟩
  | .iflt => ⟨0x9b, "IFLT", .jump⟩
  | .ifge => ⟨0x9c, "IFGE", .jump⟩
  | .ifgt => ⟨0x9d, "IFGT", .jump⟩
  | .ifle => ⟨0x9e, "IFLE", .jump⟩
  | .ifIcmpeq => ⟨0x9f, "IF_ICMPEQ", .jump⟩
  | .ifIcmpne => ⟨0xa0, "IF_ICMPNE", .jump⟩
  | .ifIcmplt => ⟨0xa1, "IF_ICMPLT", .jump⟩
  | .ifIcmpge => ⟨0xa2, "IF_ICMPGE", .jump⟩
  | .ifIcmpgt => ⟨0xa3, "IF_ICMPGT", .jump⟩
  | .ifIcmple => ⟨0xa4, "IF_ICMPLE", .jump⟩
  | .ifAcmpeq => ⟨0xa5, "IF_ACMPEQ", .jump⟩
  | .ifAcmpne => ⟨0xa6, "IF_ACMPNE", .jump⟩
  | .goto => ⟨0xa7, "GOTO", .jump⟩
  | .jsr => ⟨0xa8, "JSR", .jump⟩
  | .ret => ⟨0xa9, "RET", .slot⟩
  | .tableSwitch => ⟨0xaa, "TABLESWITCH", .tableSwitch⟩
  | .lookupSwitch => ⟨0xab, "LOOKUPSWITCH", .lookupSwitch⟩
  | .ireturn => ⟨0xac, "IRETURN", .none⟩
  | .lreturn => ⟨0xad, "LRETURN", .none⟩
  | .freturn => ⟨0xae, "FRETURN", .none⟩
  | .dreturn => ⟨0xaf, "DRETURN", .none⟩
  | .areturn => ⟨0xb0, "ARETURN", .none⟩
  | .returnVoid => ⟨0xb1, "RETURN", .none⟩
  | .getStatic => ⟨0xb2, "GETSTATIC", .field⟩
  | .putStatic => ⟨0xb3, "PUTSTATIC", .field⟩
  | .getField => ⟨0xb4, "GETFIELD", .field⟩
  | .putField => ⟨0xb5, "PUTFIELD", .field⟩
  | .invokeVirtual => ⟨0xb6, "INVOKEVIRTUAL", .method⟩
  | .invokeSpecial => ⟨0xb7, "INVOKESPECIAL", .method⟩
  | .invokeStatic => ⟨0xb8, "INVOKESTATIC", .method⟩
  | .invokeInterface => ⟨0xb9, "INVOKEINTERFACE", .method⟩
  | .invokeDynamic => ⟨0xba, "INVOKEDYNAMIC", .callSite⟩
  | .new => ⟨0xbb, "NEW", .type⟩
  | .newArray => ⟨0xbc, "NEWARRAY", .int⟩
  | .newRefArray => ⟨0xbd, "ANEWARRAY", .type⟩
  | .arrayLength => ⟨0xbe, "ARRAYLENGTH", .none⟩
  | .athrow => ⟨0xbf, "ATHROW", .none⟩
  | .checkCast => ⟨0xc0, "CHECKCAST", .type⟩
  | .instanceOf => ⟨0xc1, "INSTANCEOF", .type⟩
  | .monitorEnter => ⟨0xc2, "MONITORENTER", .none⟩
  | .monitorExit => ⟨0xc3, "MONITOREXIT", .none⟩
  | .multiNewArray => ⟨0xc5, "MULTIANEWARRAY", .arrayDimensions⟩
  | .ifnull => ⟨0xc6, "IFNULL", .jump⟩
  | .ifnonnull => ⟨0xc7, "IFNONNULL", .jump⟩

/-- The byte of the opcode in a class file. -/
def code (opcode : Opcode) : UInt8 := opcode.encoding.code

def mnemonic (opcode : Opcode) : String := opcode.encoding.mnemonic

def operands (opcode : Opcode) : OperandShape := opcode.encoding.operands

/-- Every opcode, by ascending byte. -/
def all : List Opcode :=
  [.nop, .aconstNull, .iconstM1, .iconst0, .iconst1, .iconst2, .iconst3, .iconst4, .iconst5,
   .lconst0, .lconst1, .fconst0, .fconst1, .fconst2, .dconst0, .dconst1, .bipush, .sipush, .ldc,
   .iload, .lload, .fload, .dload, .aload, .iaload, .laload, .faload, .daload, .aaload, .baload,
   .caload, .saload, .istore, .lstore, .fstore, .dstore, .astore, .iastore, .lastore, .fastore,
   .dastore, .aastore, .bastore, .castore, .sastore, .pop, .pop2, .dup, .dupX1, .dupX2, .dup2,
   .dup2X1, .dup2X2, .swap, .iadd, .ladd, .fadd, .dadd, .isub, .lsub, .fsub, .dsub, .imul, .lmul,
   .fmul, .dmul, .idiv, .ldiv, .fdiv, .ddiv, .irem, .lrem, .frem, .drem, .ineg, .lneg, .fneg,
   .dneg, .ishl, .lshl, .ishr, .lshr, .iushr, .lushr, .iand, .land, .ior, .lor, .ixor, .lxor,
   .iinc, .i2l, .i2f, .i2d, .l2i, .l2f, .l2d, .f2i, .f2l, .f2d, .d2i, .d2l, .d2f, .i2b, .i2c,
   .i2s, .lcmp, .fcmpl, .fcmpg, .dcmpl, .dcmpg, .ifeq, .ifne, .iflt, .ifge, .ifgt, .ifle,
   .ifIcmpeq, .ifIcmpne, .ifIcmplt, .ifIcmpge, .ifIcmpgt, .ifIcmple, .ifAcmpeq, .ifAcmpne, .goto,
   .jsr, .ret, .tableSwitch, .lookupSwitch, .ireturn, .lreturn, .freturn, .dreturn, .areturn,
   .returnVoid, .getStatic, .putStatic, .getField, .putField, .invokeVirtual, .invokeSpecial,
   .invokeStatic, .invokeInterface, .invokeDynamic, .new, .newArray, .newRefArray, .arrayLength,
   .athrow, .checkCast, .instanceOf, .monitorEnter, .monitorExit, .multiNewArray, .ifnull,
   .ifnonnull]

def ofCode? (code : UInt8) : Option Opcode :=
  all.find? (·.code == code)

/-- Mnemonics are looked up without regard to the case of ASCII letters. -/
def ofMnemonic? (name : String) : Option Opcode :=
  let upper := String.ofList (name.toList.map Char.toUpper)
  all.find? (·.mnemonic == upper)

/-- Branches that may also fall through to the next instruction. -/
def isConditional (opcode : Opcode) : Bool :=
  opcode.operands == .jump && opcode != .goto && opcode != .jsr

/-- Control never reaches the instruction after one of these. -/
def endsFlow : Opcode → Bool
  | .goto | .ret | .tableSwitch | .lookupSwitch | .athrow => true
  | .ireturn | .lreturn | .freturn | .dreturn | .areturn | .returnVoid => true
  | _ => false

/-- Loads and stores of a `long` or `double`, which touch two consecutive slots. -/
def isWide : Opcode → Bool
  | .lload | .dload | .lstore | .dstore => true
  | _ => false

def isStore : Opcode → Bool
  | .istore | .lstore | .fstore | .dstore | .astore => true
  | _ => false

/-- The descriptor of the array that an element type code names. -/
def arrayDescriptor? (code : Int32) : Option String :=
  match code.toInt with
  | 4 => some "[Z"
  | 5 => some "[C"
  | 6 => some "[F"
  | 7 => some "[D"
  | 8 => some "[B"
  | 9 => some "[S"
  | 10 => some "[I"
  | 11 => some "[J"
  | _ => none

end Opcode
end Bytecode
