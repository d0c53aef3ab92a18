/-!
# Quoted literals

Dumps show text literals between quotes on a single line. Line breaks, tabs, the backslash and the
quote in use are written with a backslash; every other character stands for itself.
-/

namespace RecordMachine.Text

/-- How one character is written between two `quote` characters. -/
def escapeChar (quote c : Char) : List Char :=
  match c with
  | '\n' => ['\\', 'n']
  | '\r' => ['\\', 'r']
  | '\t' => ['\\', 't']
  | '\\' => ['\\', '\\']
  | c => if c = quote then ['\\', c] else [c]

/-- The inside of a quoted literal. -/
def escape (quote : Char) (text : List Char) : List Char :=
  text.flatMap (escapeChar quote)

/-- A literal with its two quotes. -/
def quoted (quote : Char) (text : List Char) : String :=
  String.ofList (quote :: (escape quote text ++ [quote]))

end RecordMachine.Text
