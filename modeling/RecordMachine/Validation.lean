import RecordMachine.Bytecode

/-!
# Validation

Checks of a program that need no run: every instruction carries the operand that its opcode needs,
jumps lead to an instruction of their own blueprint, and calls name a blueprint. All defects are
collected, in the order of the blueprints and of their instructions.
-/

namespace RecordMachine

/-- What is wrong with an instruction. -/
inductive DefectKind where
  | operandMismatch (op : Opcode) (found : Option OperandKind)
  | pendingJump
  | jumpOutOfBounds (target length : Nat)
  | unknownFunction (name : String)
deriving DecidableEq

/-- A defect and the instruction that has it. -/
structure Defect where
  function : String
  index : Nat
  kind : DefectKind
deriving DecidableEq

namespace DefectKind

def expectedText (op : Opcode) : String :=
  match op.operandKind with
  | none => "None"
  | some kind => kind.text

def foundText : Option OperandKind → String
  | none => "None"
  | some kind => "Some(" ++ kind.text ++ ")"

def message : DefectKind → String
  | .operandMismatch op found =>
    op.mnemonic ++ " expects " ++ expectedText op ++ " operand, found " ++ foundText found
  | .pendingJump => "jump target was never patched"
  | .jumpOutOfBounds target length =>
    "jump target " ++ toString target ++ " out of bounds (len " ++ toString length ++ ")"
  | .unknownFunction name => "call to unknown function '" ++ name ++ "'"

end DefectKind

def Defect.text (d : Defect) : String :=
  d.function ++ " at " ++ toString d.index ++ ": " ++ d.kind.message

namespace Instruction

/-- What is wrong with the target of a jump in a blueprint of the given length. -/
def jumpProblems (length : Nat) (i : Instruction) : List DefectKind :=
  match i.jumpTarget? with
  | none => []
  | some target =>
    if target = pendingAddress then [.pendingJump]
    else if length ≤ target then [.jumpOutOfBounds target length]
    else []

def callProblems (bc : Bytecode) (i : Instruction) : List DefectKind :=
  match i.opcode, i.operand with
  | .call, some (.name name) => if bc.contains name then [] else [.unknownFunction name]
  | _, _ => []

/-- Everything that is wrong with an instruction. One with a wrong operand is not looked at
further. -/
def problems (bc : Bytecode) (length : Nat) (i : Instruction) : List DefectKind :=
  let found := i.operand.map Operand.kind
  if found = i.opcode.operandKind then i.jumpProblems length ++ i.callProblems bc
  else [.operandMismatch i.opcode found]

end Instruction

namespace Blueprint

/-- The defects of a blueprint of the given program. -/
def defects (bc : Bytecode) (b : Blueprint) : List Defect :=
  b.code.toList.zipIdx.flatMap fun (i, index) =>
    (i.problems bc b.code.size).map fun kind => ⟨b.name, index, kind⟩

end Blueprint

namespace Bytecode

def defects (bc : Bytecode) : List Defect :=
  bc.blueprints.flatMap (Blueprint.defects bc)

def isValid (bc : Bytecode) : Bool := bc.defects.isEmpty

end Bytecode

end RecordMachine
