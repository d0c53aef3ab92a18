import RecordMachine.Blueprint
import RecordMachine.Fault

/-!
# Activations

One call of a function in progress. It owns its operand stack, its variable slots and the index of
its next instruction; nothing of it is shared with another call.
-/

namespace RecordMachine

/-- A call in progress. -/
structure Activation where
  blueprint : Blueprint
  /-- The variables; the arguments come first. -/
  slots : List Value
  /-- The operands, the one pushed last in front. -/
  stack : List Value := []
  /-- The index of the next instruction. -/
  pc : Nat := 0
deriving DecidableEq

namespace Activation

/-- A call that is about to start, with its arguments in place. -/
def enter (blueprint : Blueprint) (args : List Value) : Activation :=
  { blueprint, slots := args }

/-- The operands in the order in which they were pushed. -/
def operands (a : Activation) : List Value := a.stack.reverse

def push (a : Activation) (v : Value) : Activation :=
  { a with stack := v :: a.stack }

def pop (a : Activation) : Except Cause (Value × Activation) :=
  match a.stack with
  | [] => .error .emptyStack
  | v :: rest => .ok (v, { a with stack := rest })

/-- The operand pushed last, which stays. -/
def peek (a : Activation) : Except Cause Value :=
  match a.stack with
  | [] => .error .emptyStack
  | v :: _ => .ok v

/-- Takes the `count` operands pushed last, in the order in which they were pushed. If there are too
few, none is taken. -/
def popMany (a : Activation) (count : Nat) : Except Cause (List Value × Activation) :=
  if count ≤ a.stack.length then
    .ok ((a.stack.take count).reverse, { a with stack := a.stack.drop count })
  else .error .emptyStack

def load (a : Activation) (slot : Nat) : Except Cause Value :=
  match a.slots[slot]? with
  | some v => .ok v
  | none => .error (.noSlot slot a.slots.length)

/-- Sets a slot. Slots in between that hold nothing yet become nil. -/
def store (a : Activation) (slot : Nat) (v : Value) : Activation :=
  if slot < a.slots.length then { a with slots := a.slots.set slot v }
  else { a with slots := a.slots ++ List.replicate (slot - a.slots.length) .nil ++ [v] }

end Activation

end RecordMachine
