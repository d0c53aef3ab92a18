import RecordMachine.Bytecode
import RecordMachine.Event
import RecordMachine.Machine.Local
import RecordMachine.Profile
import RecordMachine.Settings

/-!
# The machine

A machine runs the functions of a program under given settings. Its state is the stack of
activations, the heap, the console, the profile and the log; one step fetches, shows, counts and
performs one instruction. A run starts in the function that the settings name and ends with the
value that it returns, or with the first fault.
-/

namespace RecordMachine

/-- What stays fixed during the runs of a machine. -/
structure Machine where
  bytecode : Bytecode
  settings : Settings := {}

/-- What changes during the runs of a machine. -/
structure State where
  /-- The functions in progress, the innermost in front. -/
  frames : List Activation := []
  heap : Heap
  console : Console := {}
  profile : Option Profile := none
  /-- What was reported, the latest in front. -/
  log : List Event := []

namespace State

/-- The number of functions in progress. -/
def callDepth (s : State) : Nat := s.frames.length

def report (s : State) (event : Event) : State := { s with log := event :: s.log }

/-- What the innermost activation can reach. -/
def focus (s : State) (top : Activation) : Local := ⟨top, s.heap, s.console⟩

/-- The state after the innermost activation has done its work above the `rest`. -/
def restore (s : State) (l : Local) (rest : List Activation) : State :=
  { s with frames := l.top :: rest, heap := l.heap, console := l.console }

end State

/-- The outcome of one step. -/
inductive Step where
  | next (s : State)
  | done (v : Value) (s : State)
  | failed (fault : Fault) (s : State)

namespace Machine

/-- The state of a machine that has not run yet. -/
def initial (m : Machine) (console : Console) (profile : Option Profile := none) : State where
  heap := Heap.new m.settings.heapBase
  console := console
  profile := profile

/-- Whether `depth` activations leave no room for another one. -/
def atLimit (m : Machine) (depth : Nat) : Option Nat :=
  match m.settings.maxCallDepth with
  | some limit => if limit ≤ depth then some limit else none
  | none => none

/-- Enters a function, with its arguments taken from the caller's operands. -/
def enter (m : Machine) (s : State) (caller : Activation) (rest : List Activation)
    (name : String) : Except Cause State :=
  match m.bytecode.get? name with
  | none => .error (.unknownFunction name)
  | some callee =>
    match m.atLimit (rest.length + 1) with
    | some limit => .error (.callDepth name limit)
    | none =>
      match caller.popMany callee.params with
      | .error cause => .error cause
      | .ok (args, caller) =>
        .ok ({ s with frames := Activation.enter callee args :: caller :: rest }.report
          (.call name (rest.length + 2)))

/-- Executes an instruction in the innermost activation `top`, whose index has been advanced. -/
def execute (m : Machine) (s : State) (top : Activation) (rest : List Activation)
    (i : Instruction) : EStateM.Result Cause State (Option Value) :=
  match Action.perform i (s.focus top) with
  | .error cause l => .error cause (s.restore l rest)
  | .ok .next l => .ok none (s.restore l rest)
  | .ok (.call name) l =>
    match m.enter (s.restore l rest) l.top rest name with
    | .error cause => .error cause (s.restore l rest)
    | .ok s => .ok none s
  | .ok (.ret v) l =>
    let left := { s.restore l rest with frames := rest }.report
      (.ret l.top.blueprint.name rest.length)
    match rest with
    | [] => .ok (some v) left
    | caller :: others => .ok none { left with frames := caller.push v :: others }

def traceBlock (a : Activation) (i : Instruction) (heap : Heap) : String :=
  "\n\t FRAME........: " ++ a.blueprint.name ++ "\n\t PC...........: " ++ toString a.pc
    ++ "\n\t INSTRUCTION..: " ++ i.text ++ "\n\t OPERAND STACK: " ++ Value.listText a.operands
    ++ "\n\t HEAP.........: " ++ heap.text ++ "\n"

/-- Shows an instruction of the activation `a`, if the settings ask for it. -/
def showInstruction (m : Machine) (s : State) (a : Activation) (i : Instruction) :
    Except Cause Unit × State :=
  if m.settings.trace then
    let s := s.report (.execute a.blueprint.name a.pc i a.operands)
    match s.console.print (traceBlock a i s.heap) with
    | (result, console) => (result, { s with console })
  else (.ok (), s)

def countInstruction (s : State) (a : Activation) (i : Instruction) : State :=
  let observe := fun (p : Profile) =>
    p.observe i.opcode a.blueprint.name a.pc a.stack.length s.frames.length
  { s with profile := s.profile.map observe }

/-- One step. A fault is placed at the instruction that raised it; one outside of any instruction
has no place. -/
def step (m : Machine) (s : State) : Step :=
  match s.frames with
  | [] => .failed ⟨.noActivation, none⟩ s
  | a :: rest =>
    match a.blueprint.code[a.pc]? with
    | none => .failed ⟨.fellOff a.blueprint.name a.pc, none⟩ s
    | some i =>
      let top := { a with pc := a.pc + 1 }
      match m.showInstruction { s with frames := top :: rest } a i with
      | (.error cause, s) => .failed ⟨cause, none⟩ s
      | (.ok (), s) =>
        match m.execute (countInstruction s a i) top rest i with
        | .ok none s => .next s
        | .ok (some v) s => .done v s
        | .error cause s => .failed ⟨cause, some ⟨a.blueprint.name, a.pc, i.text⟩⟩ s

/-- Steps until the run ends, at most `fuel` times; `none` if it has not ended by then. -/
def loop (m : Machine) : Nat → State → Option (Except Fault Value × State)
  | 0, _ => none
  | fuel + 1, s =>
    match m.step s with
    | .next s => m.loop fuel s
    | .done v s => some (.ok v, s)
    | .failed fault s => some (.error fault, s)

/-- The function that runs start in. It must exist and take no parameters. -/
def entry (m : Machine) : Except Cause Blueprint :=
  match m.bytecode.get? m.settings.entryPoint with
  | none => .error (.noEntry m.settings.entryPoint)
  | some b =>
    if b.params = 0 then .ok b else .error (.entryParameters m.settings.entryPoint b.params)

/-- The state at the start of a run in the function `b`. What an earlier run left of its activations
is dropped; heap, console and profile stay. -/
def begin (m : Machine) (s : State) (b : Blueprint) : State :=
  { s with frames := [Activation.enter b []] }.report
    (.runStart m.settings.entryPoint m.bytecode.size)

/-- Reports the end of a run. -/
def finish (result : Except Fault Value) (s : State) : State :=
  match result with
  | .ok v => s.report (.runEnd v s.heap.liveCount)
  | .error fault => s.report (.runAborted fault)

/-- A run of at most `fuel` steps; `none` if it has not ended by then. A run that has no function to
start in changes nothing. -/
def run (m : Machine) (fuel : Nat) (s : State) : Option (Except Fault Value × State) :=
  match m.entry with
  | .error cause => some (.error ⟨cause, none⟩, s)
  | .ok b => (m.loop fuel (m.begin s b)).map fun (result, s) => (result, finish result s)

end Machine

end RecordMachine
