/-!
# Scopes

Which variables are visible at a point of a function, and in which slot each one lives. Blocks nest;
a declaration is visible until its block is closed, and hides earlier ones of its name. Slots are
given out one after another and never again, so that two variables never share one.
-/

namespace RecordMachine

/-- A visible variable. -/
structure Binding where
  name : String
  slot : Nat
  /-- How many blocks were open around the declaration. -/
  depth : Nat
deriving DecidableEq

/-- The variables visible at a point of a function. -/
structure Scope where
  /-- The visible variables, the latest declaration in front. -/
  bindings : List Binding := []
  /-- The number of open blocks. -/
  depth : Nat := 0
  /-- The slot that the next declaration gets. -/
  nextSlot : Nat := 0
deriving DecidableEq

namespace Scope

def enter (s : Scope) : Scope := { s with depth := s.depth + 1 }

/-- Declares a variable in the innermost block. It gets the slot `nextSlot`. -/
def declare (s : Scope) (name : String) : Scope where
  bindings := ⟨name, s.nextSlot, s.depth⟩ :: s.bindings
  depth := s.depth
  nextSlot := s.nextSlot + 1

/-- Closes the innermost block: what was declared in it is no longer visible. -/
def leave (s : Scope) : Scope where
  bindings := s.bindings.filter fun b => b.depth ≤ s.depth - 1
  depth := s.depth - 1
  nextSlot := s.nextSlot

/-- The slot of the visible variable of a name. -/
def resolve? (s : Scope) (name : String) : Option Nat :=
  (s.bindings.find? fun b => b.name == name).map Binding.slot

/-- The scope at the start of a function: its parameters fill the first slots. -/
def ofParams (names : List String) : Scope := names.foldl declare {}

end Scope

end RecordMachine
