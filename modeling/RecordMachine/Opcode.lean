/-!
# Opcodes

The thirty-seven instructions of the machine, each with its mnemonic, the kind of operand it carries
and the number of operands that it takes from the stack.
-/

namespace RecordMachine

/-- The operation that an instruction performs. -/
inductive Opcode where
  | push | pop | load | store
  | add | sub | mul | div | mod | neg
  | and | or | not
  | cmpLt | cmpLe | cmpGt | cmpGe | cmpEq | cmpNe
  | jump | jumpIfFalse | call | ret
  | write | read | len | getChar | toInt | toDouble | toText
  | alloc | free | setField | getField
  | dup | swap | nop
deriving DecidableEq

inductive OperandKind where
  | value | slot | address | name | fields
deriving DecidableEq

def OperandKind.text : OperandKind → String
  | .value => "Value"
  | .slot => "Slot"
  | .address => "Address"
  | .name => "Name"
  | .fields => "Fields"

namespace Opcode

def all : List Opcode :=
  [.push, .pop, .load, .store, .add, .sub, .mul, .div, .mod, .neg, .and, .or, .not, .cmpLt, .cmpLe,
    .cmpGt, .cmpGe, .cmpEq, .cmpNe, .jump, .jumpIfFalse, .call, .ret, .write, .read, .len, .getChar,
    .toInt, .toDouble, .toText, .alloc, .free, .setField, .getField, .dup, .swap, .nop]

def mnemonic : Opcode → String
  | .push => "PUSH"
  | .pop => "POP"
  | .load => "LOAD"
  | .store => "STORE"
  | .add => "ADD"
  | .sub => "SUB"
  | .mul => "MUL"
  | .div => "DIV"
  | .mod => "MOD"
  | .neg => "NEG"
  | .and => "AND"
  | .or => "OR"
  | .not => "NOT"
  | .cmpLt => "CMPLT"
  | .cmpLe => "CMPLE"
  | .cmpGt => "CMPGT"
  | .cmpGe => "CMPGE"
  | .cmpEq => "CMPEQ"
  | .cmpNe => "CMPNE"
  | .jump => "JMP"
  | .jumpIfFalse => "JMPF"
  | .call => "CALL"
  | .ret => "VRET"
  | .write => "WRITE"
  | .read => "READ"
  | .len => "LEN"
  | .getChar => "GETCHR"
  | .toInt => "TOINT"
  | .toDouble => "TODBL"
  | .toText => "TOSTR"
  | .alloc => "ALLOC"
  | .free => "FREE"
  | .setField => "SETFLD"
  | .getField => "GETFLD"
  | .dup => "DUP"
  | .swap => "SWAP"
  | .nop => "NOP"

def ofMnemonic? (text : String) : Option Opcode :=
  all.find? fun op => op.mnemonic == text

def operandKind : Opcode → Option OperandKind
  | .push => some .value
  | .load | .store => some .slot
  | .jump | .jumpIfFalse => some .address
  | .call | .setField | .getField => some .name
  | .alloc => some .fields
  | _ => none

/-- The number of operands taken from the stack. A call takes as many as its function has
parameters, which the opcode alone does not say. -/
def pops : Opcode → Nat
  | .push | .load | .jump | .read | .alloc | .nop | .call => 0
  | .pop | .store | .neg | .not | .jumpIfFalse | .ret | .write | .len | .toInt | .toDouble | .toText
  | .free | .getField | .dup => 1
  | .add | .sub | .mul | .div | .mod | .and | .or | .cmpLt | .cmpLe | .cmpGt | .cmpGe | .cmpEq
  | .cmpNe | .getChar | .setField | .swap => 2

end Opcode

end RecordMachine
