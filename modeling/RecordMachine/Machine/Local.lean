import RecordMachine.Activation
import RecordMachine.Console
import RecordMachine.Heap
import RecordMachine.Value.Operations

/-!
# Instructions of one activation

All instructions work on the innermost activation, the heap and the console alone. Two of them then
pass control on: a call asks for a new activation, and a return ends this one. A failing instruction
leaves behind what it had done so far, which is never more than taking operands and input and
handing text to the console.
-/

namespace RecordMachine

/-- What an instruction can reach. -/
structure Local where
  top : Activation
  heap : Heap
  console : Console

/-- What an instruction does: it may fail, and what it has changed by then stays changed. -/
abbrev Action := EStateM Cause Local

/-- How a run goes on after an instruction. -/
inductive Flow where
  | next
  | call (name : String)
  | ret (value : Value)

/-- The object that a heap operation is about. -/
def Value.target (op : Opcode) : Value → Except Cause ObjectId
  | .object id => .ok id
  | .nil => .error (.nilReference op)
  | v => .error (.notObject op v.tag)

namespace Operand

def value? : Option Operand → Option Value
  | some (.value v) => some v
  | _ => none

def slot? : Option Operand → Option Nat
  | some (.slot index) => some index
  | _ => none

def address? : Option Operand → Option Nat
  | some (.address target) => some target
  | _ => none

def name? : Option Operand → Option String
  | some (.name word) => some word
  | _ => none

def fields? : Option Operand → Option (List String)
  | some (.fields names) => some names
  | _ => none

end Operand

namespace Action

def fail {α : Type} (cause : Cause) : Action α := fun l => .error cause l

/-- The outcome of a computation that changes nothing. -/
def lift {α : Type} : Except Cause α → Action α
  | .ok a => fun l => .ok a l
  | .error cause => fail cause

def push (v : Value) : Action Unit := fun l => .ok () { l with top := l.top.push v }

def pop : Action Value := fun l =>
  match l.top.pop with
  | .ok (v, top) => .ok v { l with top }
  | .error cause => .error cause l

def peek : Action Value := fun l => lift l.top.peek l

def load (slot : Nat) : Action Value := fun l => lift (l.top.load slot) l

def store (slot : Nat) (v : Value) : Action Unit := fun l =>
  .ok () { l with top := l.top.store slot v }

def goTo (target : Nat) : Action Unit :=
  fun l => .ok () { l with top := { l.top with pc := target } }

def print (text : String) : Action Unit := fun l =>
  match l.console.print text with
  | (.ok (), console) => .ok () { l with console }
  | (.error cause, console) => .error cause { l with console }

def readLine : Action String := fun l =>
  match l.console.readLine with
  | (.ok line, console) => .ok line { l with console }
  | (.error cause, console) => .error cause { l with console }

def alloc (names : List String) : Action ObjectId := fun l =>
  match l.heap.alloc names with
  | .ok (id, heap) => .ok id { l with heap }
  | .error cause => .error cause l

def free (id : ObjectId) : Action Unit := fun l =>
  match l.heap.free id with
  | .ok heap => .ok () { l with heap }
  | .error cause => .error cause l

def getField (id : ObjectId) (field : String) : Action Value := fun l =>
  lift (l.heap.getField id field) l

def setField (id : ObjectId) (field : String) (v : Value) : Action Unit := fun l =>
  match l.heap.setField id field v with
  | .ok heap => .ok () { l with heap }
  | .error cause => .error cause l

/-- Replaces the operand on top by its image. -/
def unary (f : Value → Except Cause Value) : Action Unit := do
  let a ← pop
  let result ← lift (f a)
  push result

/-- Replaces the two operands on top by their image; the one pushed first is the first argument. -/
def binary (f : Value → Value → Except Cause Value) : Action Unit := do
  let b ← pop
  let a ← pop
  let result ← lift (f a b)
  push result

def branch (target : Nat) : Value → Action Unit
  | .bool false => goTo target
  | .bool true => pure ()
  | v => fail (.notCondition v.tag)

/-- What was found of an operand, or the fault of an instruction that lacks it. -/
def need {α : Type} (i : Instruction) (kind : OperandKind) (found : Option α) : Action α :=
  match found with
  | some a => fun l => .ok a l
  | none => fail (.missingOperand i.opcode kind)

/-- Performs an instruction. Its operand is looked at before anything else happens. -/
def perform (i : Instruction) : Action Flow :=
  match i.opcode with
  | .push => do
    push (← need i .value (Operand.value? i.operand))
    return .next
  | .pop => do
    let _ ← pop
    return .next
  | .load => do
    let slot ← need i .slot (Operand.slot? i.operand)
    push (← load slot)
    return .next
  | .store => do
    let slot ← need i .slot (Operand.slot? i.operand)
    store slot (← pop)
    return .next
  | .add | .sub | .mul | .div | .mod => do
    binary (Value.arithmetic i.opcode)
    return .next
  | .neg => do
    unary Value.negate
    return .next
  | .and | .or => do
    binary (Value.logic i.opcode)
    return .next
  | .not => do
    unary Value.complement
    return .next
  | .cmpLt | .cmpLe | .cmpGt | .cmpGe | .cmpEq | .cmpNe => do
    binary (Value.comparison i.opcode)
    return .next
  | .jump => do
    goTo (← need i .address (Operand.address? i.operand))
    return .next
  | .jumpIfFalse => do
    let target ← need i .address (Operand.address? i.operand)
    branch target (← pop)
    return .next
  | .call => do
    let name ← need i .name (Operand.name? i.operand)
    return .call name
  | .ret => do
    let v ← pop
    return .ret v
  | .write => do
    let v ← pop
    print v.text
    return .next
  | .read => do
    push (.string (← readLine))
    return .next
  | .len => do
    unary Value.length
    return .next
  | .getChar => do
    binary Value.charAt
    return .next
  | .toInt => do
    unary Value.toInt
    return .next
  | .toDouble => do
    unary Value.toDouble
    return .next
  | .toText => do
    unary Value.toText
    return .next
  | .alloc => do
    let names ← need i .fields (Operand.fields? i.operand)
    push (.object (← alloc names))
    return .next
  | .free => do
    let target ← pop
    free (← lift (target.target .free))
    return .next
  | .setField => do
    let field ← need i .name (Operand.name? i.operand)
    let v ← pop
    let target ← pop
    setField (← lift (target.target .setField)) field v
    return .next
  | .getField => do
    let field ← need i .name (Operand.name? i.operand)
    let target ← pop
    push (← getField (← lift (target.target .getField)) field)
    return .next
  | .dup => do
    push (← peek)
    return .next
  | .swap => do
    let b ← pop
    let a ← pop
    push b
    push a
    return .next
  | .nop => return .next

end Action

end RecordMachine
