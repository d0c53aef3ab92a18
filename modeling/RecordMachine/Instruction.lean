import RecordMachine.Opcode
import RecordMachine.Value
import RecordMachine.Decimal.Integer

/-!
# Instructions

An instruction is an opcode with an optional operand and an optional comment. Any operand may stand
with any opcode: whether they fit is decided by the validator before a run and by the machine during
one.
-/

namespace RecordMachine

inductive Operand where
  | value (v : Value)
  | slot (index : Nat)
  | address (target : Nat)
  | name (text : String)
  | fields (names : List String)
deriving DecidableEq

/-- The address of a forward jump until its target is known: the greatest machine word. -/
def pendingAddress : Nat := Decimal.wordLimit - 1

namespace Operand

def kind : Operand → OperandKind
  | .value _ => .value
  | .slot _ => .slot
  | .address _ => .address
  | .name _ => .name
  | .fields _ => .fields

/-- The text of an operand in a dump. A jump whose target is not yet known shows a question mark. -/
def text : Operand → String
  | .value v => v.literal
  | .slot index => toString index
  | .address target => if target = pendingAddress then "?" else toString target
  | .name word => word
  | .fields names => "[" ++ ", ".intercalate names ++ "]"

end Operand

structure Instruction where
  opcode : Opcode
  operand : Option Operand := none
  comment : Option String := none
deriving DecidableEq

namespace Instruction

/-- An instruction without operand. -/
def plain (op : Opcode) : Instruction := ⟨op, none, none⟩

def push (v : Value) : Instruction := ⟨.push, some (.value v), none⟩

def load (slot : Nat) : Instruction := ⟨.load, some (.slot slot), none⟩

def store (slot : Nat) : Instruction := ⟨.store, some (.slot slot), none⟩

def jump (target : Nat) : Instruction := ⟨.jump, some (.address target), none⟩

/-- Pops a truth value and continues at an index if it is false. -/
def jumpIfFalse (target : Nat) : Instruction := ⟨.jumpIfFalse, some (.address target), none⟩

def call (name : String) : Instruction := ⟨.call, some (.name name), none⟩

def alloc (fields : List String) : Instruction := ⟨.alloc, some (.fields fields), none⟩

/-- Pops a value and an object, and sets a field of the object. -/
def setField (field : String) : Instruction := ⟨.setField, some (.name field), none⟩

/-- Pops an object and pushes the value of one of its fields. -/
def getField (field : String) : Instruction := ⟨.getField, some (.name field), none⟩

def withComment (i : Instruction) (comment : String) : Instruction :=
  { i with comment := some comment }

def jumpTarget? (i : Instruction) : Option Nat :=
  match i.opcode, i.operand with
  | .jump, some (.address target) => some target
  | .jumpIfFalse, some (.address target) => some target
  | _, _ => none

/-- The instruction's line in a dump, without its index. -/
def text (i : Instruction) : String :=
  let operand := match i.operand with
    | none => ""
    | some operand => " " ++ operand.text
  let comment := match i.comment with
    | none => ""
    | some comment => "  // " ++ comment
  i.opcode.mnemonic ++ operand ++ comment

end Instruction

end RecordMachine
