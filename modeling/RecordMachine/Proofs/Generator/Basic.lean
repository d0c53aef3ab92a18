import RecordMachine.Proofs.Backpatching.Edits
import RecordMachine.Proofs.Lowering.Shape

/-!
# The generator

Lowering computes code from a tree and from nothing else. A generator does the same work with one
object that it changes as it goes: the record types of the program, the blueprint that is being
written and the variables that are visible. Instructions are appended one after the other, blocks
are opened and closed. A forward jump is written open and patched when its target is reached; a
branch that others follow leaves an open exit, and the exits of a conditional statement are handed
on to its end and patched there to the common landing (`Chain.emit`). What is done to a blueprint is
kept as a list of edits. Where a program is refused, the object stays as it is at that moment, with
a blueprint half written and blocks still open, and the next program is given to it in that state.

Constructing an object of a record type generates the initial values of its fields, which may
construct further objects, so the recursion need not end. A stage of generation has no outcome where
constructions stand inside one another deeper than a given `depth`; it comes to an end if some depth
suffices.
-/

namespace RecordMachine

/-! ## Stages of generation -/

/-- What a generator has in hand. -/
structure Generator where
  /-- The record types of the program. -/
  types : List TypeDecl := []
  /-- The blueprint that is being written. -/
  blueprint : Blueprint := ⟨"", 0, #[]⟩
  /-- The variables that are visible. -/
  scope : Scope := {}
  /-- What was done to the blueprint since it was started, in order. -/
  edits : List Edit := []

namespace Generator

/-- What a generator with a given table knows about names, besides its scope. -/
def context (table : TypeTable) (g : Generator) : Context :=
  ⟨table, g.types, g.blueprint.name⟩

/-- The index that the next instruction gets. -/
def offset (g : Generator) : Nat := g.blueprint.offset

/-- The generator after edits of its blueprint, one after the other. -/
def edit (g : Generator) (es : List Edit) : Generator :=
  { g with
    blueprint := es.foldl (fun b e => (b.edit? e).getD b) g.blueprint
    edits := g.edits ++ es }

def extend (g : Generator) (c : Code) : Generator := g.edit (c.map .emit)

/-- The generator with the jumps at some indices pointed to a target. -/
def patch (g : Generator) (indices : List Nat) (target : Nat) : Generator :=
  g.edit (indices.map fun index => .patch index target)

def withScope (g : Generator) (scope : Scope) : Generator := { g with scope }

def enter (g : Generator) : Generator := g.withScope g.scope.enter

def leave (g : Generator) : Generator := g.withScope g.scope.leave

end Generator

/-- A stage of generation changes the generator and ends with a result or with an error. What it has
changed by then stays changed. It has no outcome if constructions nest deeper than allowed. -/
def Generation (α : Type) : Type := Generator → Option (Except LoweringError α × Generator)

instance : Monad Generation where
  pure a := fun g => some (.ok a, g)
  bind x f := fun g =>
    match x g with
    | none => none
    | some (.ok a, g') => f a g'
    | some (.error e, g') => some (.error e, g')

namespace Generation

variable {α : Type}

/-- Constructions nest too deep. -/
def unfinished : Generation α := fun _ => none

def refuse (e : LoweringError) : Generation α := fun g => some (.error e, g)

/-- Asks for something that follows from what the generator knows about names. -/
def consult (table : TypeTable) (f : Context → Scope → Except LoweringError α) : Generation α :=
  fun g => some (f (g.context table) g.scope, g)

def offset : Generation Nat := fun g => some (.ok g.offset, g)

def write (c : Code) : Generation Unit := fun g => some (.ok (), g.extend c)

def patch (indices : List Nat) (target : Nat) : Generation Unit := fun g =>
  some (.ok (), g.patch indices target)

def declare (name : String) : Generation Nat := fun g =>
  some (.ok g.scope.nextSlot, g.withScope (g.scope.declare name))

/-- The slot of the variable of a counting loop, which is declared if it is not visible. -/
def counter (var : String) : Generation Nat := fun g =>
  let (slot, inner) := g.scope.counter var
  some (.ok slot, g.withScope inner)

def enter : Generation Unit := fun g => some (.ok (), g.enter)

def leave : Generation Unit := fun g => some (.ok (), g.leave)

/-- Takes up the record types of a program. -/
def adopt (types : List TypeDecl) : Generation Unit := fun g => some (.ok (), { g with types })

/-- Starts the blueprint of a function, without variables. -/
def start (name : String) (params : Nat) : Generation Unit := fun g =>
  some (.ok (), { g with blueprint := ⟨name, params, #[]⟩, scope := {}, edits := [] })

/-- Hands the blueprint out and leaves an empty one. -/
def finish : Generation Blueprint := fun g =>
  some (.ok g.blueprint, { g with blueprint := ⟨"", 0, #[]⟩, edits := [] })

end Generation

open Generation

/-! ## Expressions -/

mutual

/-- Appends the code of an expression, given how an object of a record type is constructed. -/
def Expr.emitWith (table : TypeTable) (construct : String → Generation Unit) :
    Expr → Generation Unit
  | .literal l => write [.push l.value]
  | .path names => do
    let c ← consult table fun ctx scope => ctx.pathCode scope names
    write c
  | .new type => construct type
  | .call name args => do
    let callee ← consult table fun ctx _ => ctx.calleeCode name args.length
    Expr.emitAllWith table construct args
    write callee
  | .unary op e => do
    Expr.emitWith table construct e
    write [.plain op.opcode]
  | .binary op left right => do
    Expr.emitWith table construct left
    Expr.emitWith table construct right
    write [.plain op.opcode]
  | .group e => Expr.emitWith table construct e

def Expr.emitAllWith (table : TypeTable) (construct : String → Generation Unit) :
    List Expr → Generation Unit
  | [] => pure ()
  | e :: rest => do
    Expr.emitWith table construct e
    Expr.emitAllWith table construct rest

end

/-- Gives the fields of the object on top of the stack their initial values. -/
def emitFields (lower : Expr → Generation Unit) : List VarDecl → Generation Unit
  | [] => pure ()
  | field :: rest => do
    write [.plain .dup]
    lower field.init
    write [.setField field.name]
    emitFields lower rest

/-- Constructs an object of a record type, with at most `depth` constructions inside one another. -/
def emitNew (table : TypeTable) : Nat → String → Generation Unit
  | 0, type => do
    let _ ← consult table fun ctx _ => ctx.layout type
    unfinished
  | depth + 1, type => do
    let (names, fields) ← consult table fun ctx _ => ctx.layout type
    write [.alloc names]
    emitFields (Expr.emitWith table (emitNew table depth)) fields

def Expr.emit (table : TypeTable) (depth : Nat) (e : Expr) : Generation Unit :=
  e.emitWith table (emitNew table depth)

/-! ## Statements -/

mutual

/-- Appends the code of a statement, given how that of an expression is appended. -/
def Stmt.emit (table : TypeTable) (lower : Expr → Generation Unit) : Stmt → Generation Unit
  | .declare decl => do
    lower decl.init
    let slot ← declare decl.name
    write [.store slot]
  | .assign [] _ => consult table fun ctx _ => .error (.emptyPath ctx.function)
  | .assign (name :: fields) value => do
    lower value
    let slot ← consult table fun ctx scope => ctx.slot scope name
    write (assignCode slot fields)
  | .ifChain chain => do
    let exits ← Chain.emit table lower chain
    let landing ← offset
    write [.plain .nop]
    patch exits landing
  | .whileLoop cond body => do
    let again ← offset
    lower cond
    let exit ← offset
    write [.jumpIfFalse pendingAddress]
    enter
    Stmt.emitAll table lower body
    leave
    write [.jump again]
    let landing ← offset
    write [.plain .nop]
    patch [exit] landing
  | .forLoop var first direction stop body => do
    enter
    lower first
    let slot ← counter var
    write [.store slot]
    let again ← offset
    write [.load slot]
    lower stop
    write [.plain direction.test]
    let exit ← offset
    write [.jumpIfFalse pendingAddress]
    enter
    Stmt.emitAll table lower body
    leave
    write (direction.advanceCode slot again)
    let landing ← offset
    write [.plain .nop]
    patch [exit] landing
    leave
  | .ret none => write [.push .nil, .plain .ret]
  | .ret (some e) => do
    lower e
    write [.plain .ret]
  | .delete name => do
    let slot ← consult table fun ctx scope => ctx.slot scope name
    write [.load slot, .plain .free, .push .nil, .store slot]
  | .call name args => do
    lower (.call name args)
    write [(Instruction.plain .pop).withComment "clean up call return value"]

def Stmt.emitAll (table : TypeTable) (lower : Expr → Generation Unit) :
    List Stmt → Generation Unit
  | [] => pure ()
  | s :: rest => do
    Stmt.emit table lower s
    Stmt.emitAll table lower rest

/-- Appends the branches of a conditional statement, and gives the exits that are still open. -/
def Chain.emit (table : TypeTable) (lower : Expr → Generation Unit) :
    Chain → Generation (List Nat)
  | .done => pure []
  | .otherwise body => do
    enter
    Stmt.emitAll table lower body
    leave
    return []
  | .branch cond body rest => do
    lower cond
    let skip ← offset
    write [.jumpIfFalse pendingAddress]
    enter
    Stmt.emitAll table lower body
    leave
    let exit ← offset
    write (rest.exitCode pendingAddress)
    let next ← offset
    patch [skip] next
    let others ← Chain.emit table lower rest
    return (if rest.isDone then [] else [exit]) ++ others

end

/-! ## Functions and programs -/

def Generation.declareAll : List String → Generation Unit
  | [] => pure ()
  | name :: rest => do
    let _ ← declare name
    declareAll rest

def FunDecl.draft (f : FunDecl) (table : TypeTable) (lower : Expr → Generation Unit) :
    Generation Unit := do
  start f.name f.params.length
  declareAll (f.params.map Param.name)
  Stmt.emitAll table lower f.body
  write (closingCode f.body)

def FunDecl.emit (f : FunDecl) (table : TypeTable) (lower : Expr → Generation Unit) :
    Generation Blueprint := do
  f.draft table lower
  finish

/-- Adds the blueprints of functions to some others, one after the other. -/
def FunDecl.emitAll (table : TypeTable) (lower : Expr → Generation Unit) :
    Bytecode → List FunDecl → Generation Bytecode
  | bc, [] => pure bc
  | bc, f :: rest =>
    if bc.contains f.name then refuse (.duplicateFunction f.name)
    else do
      let b ← f.emit table lower
      FunDecl.emitAll table lower (bc.insert b) rest

/-- The compiled program, with at most `depth` constructions inside one another. -/
def Program.emit (p : Program) (table : TypeTable) (depth : Nat) : Generation Bytecode := do
  adopt p.types
  FunDecl.emitAll table (Expr.emit table depth) .empty p.functions

/-- What one generator makes of programs that it is given one after the other, whatever it made of
those before. -/
def Generator.serve (table : TypeTable) (depth : Nat) :
    List Program → Generator → Option (List (Except LoweringError Bytecode) × Generator)
  | [], g => some ([], g)
  | p :: rest, g => do
    let (result, g) ← p.emit table depth g
    let (results, g) ← Generator.serve table depth rest g
    return (result :: results, g)

/-! ## Outcomes of stages -/

namespace Generation

variable {α β : Type}

theorem bind_apply (x : Generation α) (f : α → Generation β) (g : Generator) :
    (x >>= f) g = match x g with
      | none => none
      | some (.ok a, g') => f a g'
      | some (.error e, g') => some (.error e, g') := rfl

/-- A stage that succeeds is followed by the next one. -/
theorem bind_of_ok {x : Generation α} {f : α → Generation β} {g g' : Generator} {a : α}
    (h : x g = some (.ok a, g')) : (x >>= f) g = f a g' := by
  rw [bind_apply, h]

/-- A stage that refuses is not followed by anything, and what it has changed stays changed. -/
theorem bind_of_error {x : Generation α} {f : α → Generation β} {g g' : Generator}
    {e : LoweringError} (h : x g = some (.error e, g')) : (x >>= f) g = some (.error e, g') := by
  rw [bind_apply, h]

theorem bind_of_none {x : Generation α} {f : α → Generation β} {g : Generator}
    (h : x g = none) : (x >>= f) g = none := by
  rw [bind_apply, h]

end Generation

end RecordMachine
