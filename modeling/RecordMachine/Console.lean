import RecordMachine.Fault

/-!
# The console

What a program reads and prints. Input is a sequence of octets, of which a program takes one line at
a time; output is text. Every printed text is written, unless it is empty, and then flushed, and
either may fail.
-/

namespace RecordMachine

/-- When the device behind the output fails: the message of a failing write or flush, by its number
counted from one. -/
structure Sink where
  writeFault : Nat → Option String := fun _ => none
  flushFault : Nat → Option String := fun _ => none

structure Console where
  /-- The octets not yet read. -/
  input : List UInt8 := []
  /-- The text that the device has taken. -/
  output : String := ""
  sink : Sink := {}
  /-- The number of writes so far. -/
  writes : Nat := 0
  /-- The number of flushes so far. -/
  flushes : Nat := 0
  /-- Whether the output can no longer be used. -/
  outputPoisoned : Bool := false
  /-- Whether the input can no longer be used. -/
  inputPoisoned : Bool := false

namespace Console

/-! ## Output -/

/-- Hands a text to the device. Nothing of it is kept if that fails. An empty text is not handed
over at all. -/
def write (c : Console) (text : String) : Except Cause Unit × Console :=
  if text.isEmpty then (.ok (), c)
  else
    let c := { c with writes := c.writes + 1 }
    match c.sink.writeFault c.writes with
    | some message => (.error (.device message), c)
    | none => (.ok (), { c with output := c.output ++ text })

/-- Asks the device to deliver what it was handed. -/
def flush (c : Console) : Except Cause Unit × Console :=
  let c := { c with flushes := c.flushes + 1 }
  match c.sink.flushFault c.flushes with
  | some message => (.error (.device message), c)
  | none => (.ok (), c)

def print (c : Console) (text : String) : Except Cause Unit × Console :=
  if c.outputPoisoned then (.error .outputPoisoned, c)
  else
    match c.write text with
    | (.ok (), c) => c.flush
    | (.error cause, c) => (.error cause, c)

/-! ## Input -/

/-- The octet that ends a line. -/
def newline : UInt8 := 10

/-- Cuts the octets after their first newline; without one they are a line as a whole. -/
def splitLine : List UInt8 → List UInt8 × List UInt8
  | [] => ([], [])
  | b :: rest =>
    if b = newline then ([b], rest)
    else
      let (line, rest) := splitLine rest
      (b :: line, rest)

/-- A line without the newline at its end, and without one carriage return before that newline. -/
def withoutEnd (line : List Char) : List Char :=
  match line.reverse with
  | '\n' :: '\r' :: rest => rest.reverse
  | '\n' :: rest => rest.reverse
  | _ => line

/-- Reads a line. At the end of the input it is empty. A line that is not UTF-8 is consumed all the
same. -/
def readLine (c : Console) : Except Cause String × Console :=
  if c.inputPoisoned then (.error .inputPoisoned, c)
  else
    let (line, rest) := splitLine c.input
    let c := { c with input := rest }
    match String.fromUTF8? ⟨line.toArray⟩ with
    | some text => (.ok (String.ofList (withoutEnd text.toList)), c)
    | none => (.error .notUtf8, c)

end Console

end RecordMachine
