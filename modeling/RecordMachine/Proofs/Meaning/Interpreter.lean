import RecordMachine.Machine.Local
import RecordMachine.Settings
import RecordMachine.Tree.Basic

/-!
# The meaning of a program

A direct interpreter of program trees: no instructions, no slots and no operand stack. Variables are
an association list in which the latest visible declaration stands in front, expressions are
evaluated where they stand, and a call of a function is a recursive call of the interpreter.

A program may run forever, so every function takes a `fuel` that bounds how deep calls nest, how
often a loop goes round and how deep constructions nest; where it does not suffice there is no
answer. All other recursion is on the tree. A program without a meaning (a name that does not
resolve, a wrong number of arguments) is told apart from one that fails while it runs.

What is done with single values is not defined a second time. The operators, the conversions behind
the built-in functions, the text of a value, the heap and the console are those that the machine
uses too. So the interpreter fixes which of them an expression applies to which values, in which
order; that they compute what they should is said of them alone.
-/

namespace RecordMachine

/-! ## Computations -/

/-- What a running program changes besides its variables. -/
structure World where
  heap : Heap
  console : Console

/-- Why an evaluation stops early. -/
inductive Mishap where
  /-- The program did something that fails. -/
  | fault (cause : Cause)
  /-- The program has no meaning here. -/
  | illFormed

/-- An evaluation changes the world, and ends with a result or a mishap, if it ends. -/
def Eval (α : Type) : Type := World → Option (Except Mishap α × World)

instance : Monad Eval where
  pure a := fun w => some (.ok a, w)
  bind x f := fun w =>
    match x w with
    | none => none
    | some (.ok a, w') => f a w'
    | some (.error mishap, w') => some (.error mishap, w')

namespace Eval

variable {α : Type}

/-- The fuel does not suffice. -/
def unfinished : Eval α := fun _ => none

def fault (cause : Cause) : Eval α := fun w => some (.error (.fault cause), w)

/-- The program has no meaning here. -/
def illFormed : Eval α := fun w => some (.error .illFormed, w)

/-- The outcome of a computation that changes nothing. -/
def lift : Except Cause α → Eval α
  | .ok a => pure a
  | .error cause => fault cause

def onConsole (f : Console → Except Cause α × Console) : Eval α := fun w =>
  match f w.console with
  | (.ok a, console) => some (.ok a, { w with console })
  | (.error cause, console) => some (.error (.fault cause), { w with console })

def onHeap (f : Heap → Except Cause (α × Heap)) : Eval α := fun w =>
  match f w.heap with
  | .ok (a, heap) => some (.ok a, { w with heap })
  | .error cause => some (.error (.fault cause), w)

def print (text : String) : Eval Unit := onConsole fun c => c.print text

def readLine : Eval String := onConsole Console.readLine

def alloc (names : List String) : Eval ObjectId := onHeap fun h => h.alloc names

def free (target : Value) : Eval Unit := do
  let id ← lift (target.target .free)
  onHeap fun h => (h.free id).map fun h => ((), h)

def getField (target : Value) (field : String) : Eval Value := do
  let id ← lift (target.target .getField)
  onHeap fun h => (h.getField id field).map fun v => (v, h)

def setField (target : Value) (field : String) (v : Value) : Eval Unit := do
  let id ← lift (target.target .setField)
  onHeap fun h => (h.setField id field v).map fun h => ((), h)

def walk : Value → List String → Eval Value
  | v, [] => pure v
  | v, field :: rest => do
    let v ← getField v field
    walk v rest

/-- The truth value that a condition has to be. -/
def condition : Value → Eval Bool
  | .bool b => pure b
  | v => fault (.notCondition v.tag)

end Eval

/-! ## Variables -/

/-- The visible variables with their values, the latest declaration in front. -/
abbrev Environment := List (String × Value)

namespace Environment

def get? : Environment → String → Option Value
  | [], _ => none
  | (other, v) :: rest, name => if other = name then some v else get? rest name

/-- The environment in which the visible variable of a name has another value. -/
def assign? : Environment → String → Value → Option Environment
  | [], _, _ => none
  | (other, old) :: rest, name, v =>
    if other = name then some ((other, v) :: rest)
    else (assign? rest name v).map ((other, old) :: ·)

def read (env : Environment) (name : String) : Eval Value :=
  match env.get? name with
  | some v => pure v
  | none => .illFormed

def write (env : Environment) (name : String) (v : Value) : Eval Environment :=
  match env.assign? name v with
  | some env => pure env
  | none => .illFormed

/-- Reads a variable and goes through the fields that follow. -/
def follow (env : Environment) : List String → Eval Value
  | [] => .illFormed
  | base :: fields => do
    let v ← env.read base
    Eval.walk v fields

/-- The `count` outermost variables: what remains when the block is closed that was opened when
there were that many. -/
def outermost (env : Environment) (count : Nat) : Environment := env.drop (env.length - count)

/-- The variables at the start of a function: its parameters, of which a later one hides an earlier
one of its name. -/
def ofArgs (params : List Param) (args : List Value) : Environment :=
  ((params.map Param.name).zip args).reverse

end Environment

/-! ## Operators and built-in functions -/

def UnaryOp.apply : UnaryOp → Value → Except Cause Value
  | .negate => Value.negate
  | .not => Value.complement

/-- What an operator makes of its operands. Both are values already, also those of a conjunction or
disjunction. -/
def BinaryOp.apply : BinaryOp → Value → Value → Except Cause Value
  | .add => Value.arithmetic .add
  | .sub => Value.arithmetic .sub
  | .mul => Value.arithmetic .mul
  | .div => Value.arithmetic .div
  | .mod => Value.arithmetic .mod
  | .eq => Value.comparison .cmpEq
  | .ne => Value.comparison .cmpNe
  | .lt => Value.comparison .cmpLt
  | .le => Value.comparison .cmpLe
  | .gt => Value.comparison .cmpGt
  | .ge => Value.comparison .cmpGe
  | .and => Value.logic .and
  | .or => Value.logic .or

def Direction.within (direction : Direction) (counter bound : Value) : Except Cause Value :=
  match direction with
  | .upTo => Value.comparison .cmpLe counter bound
  | .downTo => Value.comparison .cmpGe counter bound

def Direction.next (direction : Direction) (counter : Value) : Except Cause Value :=
  match direction with
  | .upTo => Value.arithmetic .add counter (.int 1)
  | .downTo => Value.arithmetic .sub counter (.int 1)

def Eval.ofUnary (f : Value → Eval Value) : List Value → Eval Value
  | [v] => f v
  | _ => .illFormed

def builtin? (name : String) : Option (List Value → Eval Value) :=
  match name with
  | "print" => some (.ofUnary fun v => do
    Eval.print v.text
    return .nil)
  | "read" => some fun
    | [] => do return .string (← Eval.readLine)
    | _ => .illFormed
  | "length" => some (.ofUnary fun v => .lift v.length)
  | "get" => some fun
    | [index, string] => .lift (Value.charAt index string)
    | _ => .illFormed
  | "stoi" | "dtoi" => some (.ofUnary fun v => .lift v.toInt)
  | "stod" | "itod" => some (.ofUnary fun v => .lift v.toDouble)
  | "itos" | "dtos" => some (.ofUnary fun v => .lift v.toText)
  | _ => none

/-! ## Expressions -/

/-- What evaluating an expression needs besides the visible variables. -/
structure Services where
  /-- Calls a function of the program. -/
  call : String → List Value → Eval Value
  /-- Makes an object of a record type where some variables are visible. -/
  construct : Environment → String → Eval Value

mutual

def Expr.eval (sv : Services) (env : Environment) : Expr → Eval Value
  | .literal (.int n) => pure (.int n)
  | .literal (.double x) => pure (.double x)
  | .literal (.bool b) => pure (.bool b)
  | .literal (.char c) => pure (.char c)
  | .literal (.string text) => pure (.string text)
  | .literal .nil => pure .nil
  | .path names => env.follow names
  | .new type => sv.construct env type
  | .call name args => do
    let values ← Expr.evalAll sv env args
    match builtin? name with
    | some f => f values
    | none => sv.call name values
  | .unary op e => do
    let v ← Expr.eval sv env e
    Eval.lift (op.apply v)
  | .binary op left right => do
    let a ← Expr.eval sv env left
    let b ← Expr.eval sv env right
    Eval.lift (op.apply a b)
  | .group e => Expr.eval sv env e

def Expr.evalAll (sv : Services) (env : Environment) : List Expr → Eval (List Value)
  | [] => pure []
  | e :: rest => do
    let v ← Expr.eval sv env e
    let vs ← Expr.evalAll sv env rest
    return v :: vs

end

/-- Gives the fields of an object their initial values, one after the other. -/
def initialise (eval : Expr → Eval Value) (target : Value) : List VarDecl → Eval Unit
  | [] => pure ()
  | field :: rest => do
    let v ← eval field.init
    Eval.setField target field.name v
    initialise eval target rest

/-! ## Statements -/

/-- How a statement ends: the program goes on with some visible variables, or the function
returns. -/
inductive Exit where
  | normal (env : Environment)
  | returned (v : Value)

/-- How a block ends that was opened when `count` variables were visible. -/
def Exit.closing (count : Nat) : Exit → Exit
  | .normal env => .normal (env.outermost count)
  | .returned v => .returned v

/-- How one round of a loop ends: there is another round, or the loop ends. -/
inductive Round where
  | again (env : Environment)
  | stop (exit : Exit)

/-- Goes round a loop until a round says that it ends. -/
def Eval.rounds (round : Environment → Eval Round) : Nat → Environment → Eval Exit
  | 0, _ => unfinished
  | fuel + 1, env => do
    match ← round env with
    | .again env => Eval.rounds round fuel env
    | .stop exit => return exit

mutual

def Stmt.exec (sv : Services) (fuel : Nat) (env : Environment) : Stmt → Eval Exit
  | .declare decl => do
    -- The initial value does not see the variable yet.
    let v ← decl.init.eval sv env
    return .normal ((decl.name, v) :: env)
  | .assign [] _ => .illFormed
  | .assign (name :: fields) value => do
    let v ← value.eval sv env
    match fields.getLast? with
    | none => return .normal (← env.write name v)
    | some last =>
      let target ← env.follow (name :: fields.dropLast)
      Eval.setField target last v
      return .normal env
  | .ifChain chain => Chain.exec sv fuel env chain
  | .whileLoop cond body =>
    let round := fun env => do
      if ← Eval.condition (← cond.eval sv env) then
        match (← Stmt.execAll sv fuel env body).closing env.length with
        | .normal env => return .again env
        | .returned v => return .stop (.returned v)
      else return .stop (.normal env)
    Eval.rounds round fuel env
  | .forLoop var start direction stop body => do
    let first ← start.eval sv env
    -- A visible variable of that name is used; otherwise the loop declares its own.
    let inner := (env.assign? var first).getD ((var, first) :: env)
    let round := fun env => do
      let counter ← env.read var
      let bound ← stop.eval sv env
      if ← Eval.condition (← Eval.lift (direction.within counter bound)) then
        match (← Stmt.execAll sv fuel env body).closing env.length with
        | .normal env => do
          let next ← Eval.lift (direction.next (← env.read var))
          return .again (← env.write var next)
        | .returned v => return .stop (.returned v)
      else return .stop (.normal env)
    return (← Eval.rounds round fuel inner).closing env.length
  | .ret none => return .returned .nil
  | .ret (some e) => do return .returned (← e.eval sv env)
  | .delete name => do
    Eval.free (← env.read name)
    return .normal (← env.write name .nil)
  | .call name args => do
    let _ ← (Expr.call name args).eval sv env
    return .normal env

/-- Carries out statements one after the other, up to one that returns. -/
def Stmt.execAll (sv : Services) (fuel : Nat) (env : Environment) : List Stmt → Eval Exit
  | [] => return .normal env
  | s :: rest => do
    match ← Stmt.exec sv fuel env s with
    | .normal env => Stmt.execAll sv fuel env rest
    | .returned v => return .returned v

/-- Carries out the first branch whose condition holds. -/
def Chain.exec (sv : Services) (fuel : Nat) (env : Environment) : Chain → Eval Exit
  | .done => return .normal env
  | .otherwise body => do return (← Stmt.execAll sv fuel env body).closing env.length
  | .branch cond body rest => do
    if ← Eval.condition (← cond.eval sv env) then
      return (← Stmt.execAll sv fuel env body).closing env.length
    else Chain.exec sv fuel env rest

end

/-! ## Programs -/

/-- The value of a call of a function; `nil` if its body ends without a return. -/
def FunDecl.call (f : FunDecl) (sv : Services) (fuel : Nat) (args : List Value) : Eval Value := do
  match ← Stmt.execAll sv fuel (.ofArgs f.params args) f.body with
  | .returned v => return v
  | .normal _ => return .nil

namespace Program

/-- Makes an object: its fields are nil at first, then their initial values are evaluated and stored
in order, where the variables around the construction are visible. -/
def construct (p : Program) (call : String → List Value → Eval Value) :
    Nat → Environment → String → Eval Value
  | 0, _, _ => .unfinished
  | fuel + 1, env, type =>
    match p.record? type with
    | none => .illFormed
    | some decl => do
      let id ← Eval.alloc (decl.fields.map VarDecl.name)
      initialise (Expr.eval ⟨call, construct p call fuel⟩ env) (.object id) decl.fields
      return .object id

/-- What the expressions of a program need. -/
def services (p : Program) (call : String → List Value → Eval Value) (fuel : Nat) : Services :=
  ⟨call, p.construct call fuel⟩

/-- Calls a function while `depth` functions are active, of which there may be at most `limit`. -/
def invoke (p : Program) (limit : Option Nat) : Nat → Nat → String → List Value → Eval Value
  | 0, _, _, _ => .unfinished
  | fuel + 1, depth, name, args =>
    match p.function? name with
    | none => .fault (.unknownFunction name)
    | some f =>
      match limit.filter (· ≤ depth) with
      | some max => .fault (.callDepth name max)
      | none =>
        if args.length = f.params.length then
          f.call (p.services (invoke p limit fuel (depth + 1)) fuel) fuel args
        else .illFormed

/-- Runs a program: calls the function that the settings name, without arguments. -/
def interpret (p : Program) (settings : Settings) (fuel : Nat) : Eval Value :=
  match p.function? settings.entryPoint with
  | none => .fault (.noEntry settings.entryPoint)
  | some f =>
    if f.params.length = 0 then
      f.call (p.services (p.invoke settings.maxCallDepth fuel 1) fuel) fuel []
    else .fault (.entryParameters settings.entryPoint f.params.length)

end Program

end RecordMachine
