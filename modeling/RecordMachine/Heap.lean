import RecordMachine.Fault
import RecordMachine.Decimal.Integer

/-!
# The heap

Record objects by id. Ids are given out in increasing order from a base and never a second time: a
freed object leaves an empty cell behind, so that using it afterwards is always noticed.
-/

namespace RecordMachine

/-- A record object: its fields in the order in which they were named. A repeated name is shadowed
by its first occurrence. -/
structure Record where
  fields : List (String × Value)
deriving DecidableEq

namespace Record

/-- A record with all fields nil. -/
def make (names : List String) : Record :=
  ⟨names.map fun name => (name, .nil)⟩

def get? (r : Record) (field : String) : Option Value :=
  (r.fields.find? fun f => f.1 == field).map Prod.snd

/-- The list of fields with the first field of that name set, if there is one. -/
def setIn? (field : String) (value : Value) :
    List (String × Value) → Option (List (String × Value))
  | [] => none
  | (name, old) :: rest =>
    if name = field then some ((name, value) :: rest)
    else (setIn? field value rest).map ((name, old) :: ·)

def set? (r : Record) (field : String) (value : Value) : Option Record :=
  (setIn? field value r.fields).map Record.mk

def text (r : Record) : String :=
  "\x7b" ++ ", ".intercalate (r.fields.map fun (name, value) => name ++ ": " ++ value.text)
    ++ "\x7d"

end Record

/-- The objects of one machine. The cell at an index belongs to the id that lies that far above the
base; it is empty once its object is freed. -/
structure Heap where
  base : ObjectId
  cells : Array (Option Record) := #[]

namespace Heap

/-- The heap without objects, whose first object will get the id `base`. -/
def new (base : ObjectId) : Heap := { base }

/-- Makes an object. Ids are machine words, so there may be none left. -/
def alloc (h : Heap) (names : List String) : Except Cause (ObjectId × Heap) :=
  let id := h.base + h.cells.size
  if id < Decimal.wordLimit then
    .ok (id, { h with cells := h.cells.push (some (Record.make names)) })
  else .error .heapExhausted

def object (h : Heap) (id : ObjectId) : Except Cause Record :=
  if id < h.base then .error (.noObject id)
  else
    match h.cells[id - h.base]? with
    | some (some record) => .ok record
    | some none => .error (.freedObject id)
    | none => .error (.noObject id)

def put (h : Heap) (id : ObjectId) (cell : Option Record) : Heap :=
  { h with cells := h.cells.setIfInBounds (id - h.base) cell }

def free (h : Heap) (id : ObjectId) : Except Cause Heap :=
  match h.object id with
  | .ok _ => .ok (h.put id none)
  | .error cause => .error cause

def getField (h : Heap) (id : ObjectId) (field : String) : Except Cause Value :=
  match h.object id with
  | .ok record =>
    match record.get? field with
    | some value => .ok value
    | none => .error (.unknownField id field)
  | .error cause => .error cause

def setField (h : Heap) (id : ObjectId) (field : String) (value : Value) : Except Cause Heap :=
  match h.object id with
  | .ok record =>
    match record.set? field value with
    | some record => .ok (h.put id (some record))
    | none => .error (.unknownField id field)
  | .error cause => .error cause

def contains (h : Heap) (id : ObjectId) : Bool :=
  match h.object id with
  | .ok _ => true
  | .error _ => false

/-- The objects with their ids, in increasing order of the ids. -/
def live (h : Heap) : List (ObjectId × Record) :=
  h.cells.toList.zipIdx.filterMap fun (cell, index) => cell.map fun r => (h.base + index, r)

def liveCount (h : Heap) : Nat :=
  h.cells.toList.countP Option.isSome

def text (h : Heap) : String :=
  "\x7b" ++ ", ".intercalate (h.live.map fun (id, r) => toString id ++ ": " ++ r.text) ++ "\x7d"

end Heap

end RecordMachine
