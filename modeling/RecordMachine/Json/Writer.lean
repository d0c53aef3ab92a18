import RecordMachine.Json.Basic
import RecordMachine.Text.Hexadecimal

/-!
# Writing JSON

The indented form: two blanks for each level, one item or member to a line, and a pair of brackets
alone for what is empty. In strings only the quote, the backslash and the characters below U+0020
are escaped.
-/

namespace RecordMachine.Json

/-- How one character is written inside a string. -/
def escapeChar (c : Char) : List Char :=
  match c with
  | '"' => ['\\', '"']
  | '\\' => ['\\', '\\']
  | '\x08' => ['\\', 'b']
  | '\x0c' => ['\\', 'f']
  | '\n' => ['\\', 'n']
  | '\r' => ['\\', 'r']
  | '\t' => ['\\', 't']
  | c =>
    if c.toNat < 0x20 then
      ['\\', 'u', '0', '0', Text.hexDigit (c.toNat / 16), Text.hexDigit c.toNat]
    else [c]

def stringText (s : String) : List Char :=
  '"' :: (s.toList.flatMap escapeChar ++ ['"'])

/-- A line break and the blanks of a level. -/
def newLine (level : Nat) : List Char :=
  '\n' :: List.replicate (2 * level) ' '

mutual

/-- The text of a document whose first line has been started at the given level. -/
def write (level : Nat) : Json → List Char
  | .null => "null".toList
  | .bool b => if b then "true".toList else "false".toList
  | .int n => (toString n).toList
  | .double x => (Decimal.floatText doubleLayout x).toList
  | .string s => stringText s
  | .array [] => ['[', ']']
  | .array (item :: rest) =>
    '[' :: (newLine (level + 1) ++ write (level + 1) item ++ writeItems (level + 1) rest
      ++ newLine level ++ [']'])
  | .object [] => ['\x7b', '\x7d']
  | .object ((key, value) :: rest) =>
    '\x7b' :: (newLine (level + 1) ++ stringText key ++ [':', ' '] ++ write (level + 1) value
      ++ writeMembers (level + 1) rest ++ newLine level ++ ['\x7d'])

/-- The items after the first. -/
def writeItems (level : Nat) : List Json → List Char
  | [] => []
  | item :: rest => ',' :: (newLine level ++ write level item ++ writeItems level rest)

/-- The members after the first. -/
def writeMembers (level : Nat) : List (String × Json) → List Char
  | [] => []
  | (key, value) :: rest =>
    ',' :: (newLine level ++ stringText key ++ [':', ' '] ++ write level value
      ++ writeMembers level rest)

end

def render (j : Json) : String :=
  String.ofList (j.write 0)

end RecordMachine.Json
