import RecordMachine.Machine.Step

/-!
# Runs in words

Indices of instructions and slots, heights of stacks and ids of objects are words: they lie below
`Decimal.wordLimit`. `Machine.wordOps` lists what a step computes with them. Such a computation can
have no result: a sum can be too large, a difference negative, an index beyond the end.
`Machine.wordRun` is the run of a machine that breaks down there; otherwise it is the run of
`Machine.run`. Only words are bounded here: memory never runs out.
-/

namespace RecordMachine

/-- A computation with words. -/
inductive WordOp where
  | sum (a b : Nat)
  | difference (a b : Nat)
  /-- Looking up an index among `count` entries. -/
  | access (index count : Nat)

def WordOp.succeeds : WordOp → Bool
  | .sum a b => a + b < Decimal.wordLimit
  | .difference a b => b ≤ a
  | .access index count => index < count

/-- Setting a slot looks it up. If there are not enough slots, it first computes how many to
make. -/
def Activation.storeOps (a : Activation) (slot : Nat) : List WordOp :=
  -- Memory is taken as unbounded: however many slots that are, they can be made, and a bound on the
  -- size of a list, which would be reached before that of a word, is left out.
  if slot < a.slots.length then [.access slot a.slots.length]
  else [.sum slot 1, .access slot (slot + 1)]

/-- Taking some operands at once computes how many are left. -/
def Activation.popManyOps (a : Activation) (count : Nat) : List WordOp :=
  if count ≤ a.stack.length then [.difference a.stack.length count] else []

/-- Listing the objects computes their ids. -/
def Heap.liveOps (h : Heap) : List WordOp :=
  h.cells.toList.zipIdx.filterMap fun (cell, index) => cell.map fun _ => .sum h.base index

namespace Machine

/-- What an instruction computes, executed in `a` as the innermost of `depth` activations. -/
def instructionOps (m : Machine) (a : Activation) (depth : Nat) (i : Instruction) : List WordOp :=
  match i.opcode with
  | .store =>
    match Operand.slot? i.operand, a.stack with
    | some slot, _ :: _ => a.storeOps slot
    | _, _ => []
  | .call =>
    match (Operand.name? i.operand).bind m.bytecode.get?, m.atLimit depth with
    | some callee, none => a.popManyOps callee.params
    | _, _ => []
  | _ => []

/-- What the next step computes: the index after that of the instruction, the ids of the objects if
it shows the instruction, and unless that fails what the instruction itself computes. -/
def wordOps (m : Machine) (s : State) : List WordOp :=
  match s.frames with
  | [] => []
  | a :: rest =>
    match a.blueprint.code[a.pc]? with
    | none => []
    | some i =>
      let shown := if m.settings.trace then s.heap.liveOps else []
      let executed :=
        match m.showInstruction { s with frames := { a with pc := a.pc + 1 } :: rest } a i with
        | (.ok (), _) => m.instructionOps a s.frames.length i
        | (.error _, _) => []
      .sum a.pc 1 :: (shown ++ executed)

end Machine

/-- What becomes of a run in words that may take a certain number of steps. -/
inductive Attempt (α : Type) where
  | unfinished
  /-- A computation with words had no result. -/
  | brokenDown
  | ended (result : α)

namespace Attempt

def map {α β : Type} (f : α → β) : Attempt α → Attempt β
  | .unfinished => .unfinished
  | .brokenDown => .brokenDown
  | .ended result => .ended (f result)

end Attempt

namespace Machine

/-- Steps until the run ends or breaks down, at most `fuel` times. -/
def wordLoop (m : Machine) : Nat → State → Attempt (Except Fault Value × State)
  | 0, _ => .unfinished
  | fuel + 1, s =>
    if (m.wordOps s).all WordOp.succeeds then
      match m.step s with
      | .next s => m.wordLoop fuel s
      | .done v s => .ended (.ok v, s)
      | .failed fault s => .ended (.error fault, s)
    else .brokenDown

/-- A run in words, of at most `fuel` steps. -/
def wordRun (m : Machine) (fuel : Nat) (s : State) : Attempt (Except Fault Value × State) :=
  match m.entry with
  | .error cause => .ended (.error ⟨cause, none⟩, s)
  | .ok b => (m.wordLoop fuel (m.begin s b)).map fun (result, s) => (result, finish result s)

end Machine

end RecordMachine
