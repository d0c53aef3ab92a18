import RecordMachine.Text.Hexadecimal
import RecordMachine.Toml.Basic

/-!
# Writing TOML strings

A string is written in the first of five forms that can hold it: between single marks if no line
break is in it, and with escapes only if nothing else will do.
-/

namespace RecordMachine.Toml

/-- The ways of writing a string. -/
inductive Quoting where
  /-- Between quotes, with escapes. -/
  | basic
  /-- Between apostrophes, as it is. -/
  | literal
  /-- Between three quotes, with escapes. -/
  | basicLines
  /-- Between three apostrophes, as it is. -/
  | literalLines
deriving DecidableEq, Inhabited

/-- Whether a character can only be written by an escape: a control character other than the tab
and the line feed. -/
def isControl (c : Char) : Bool :=
  (c.toNat < 0x20 && c != '\t' && c != '\n') || c.toNat == 0x7f

def hasTriple (mark : Char) : List Char → Bool
  | a :: b :: c :: rest => (a == mark && b == mark && c == mark) || hasTriple mark (b :: c :: rest)
  | _ => false

/-- The form that a string is written in. -/
def quotingFor (text : List Char) : Quoting :=
  let control := text.any isControl
  let newline := text.contains '\n'
  let backslash := text.contains '\\'
  if !control && !backslash && !newline && !text.contains '"' then .basic
  else if !control && !newline && !text.contains '\'' then .literal
  else if !control && !backslash && !hasTriple '"' text then .basicLines
  else if !control && !hasTriple '\'' text then .literalLines
  else if newline then .basicLines
  else .basic

def upperHexDigit (n : Nat) : Char :=
  (Text.hexDigit n).toUpper

/-- How one character is written where escapes are read; quotes and line feeds are not its
concern. -/
def escapeChar (c : Char) : List Char :=
  match c with
  | '\x08' => ['\\', 'b']
  | '\t' => ['\\', 't']
  | '\x0c' => ['\\', 'f']
  | '\r' => ['\\', 'r']
  | '\\' => ['\\', '\\']
  | c =>
    if isControl c then
      ['\\', 'u', '0', '0', upperHexDigit (c.toNat / 16), upperHexDigit c.toNat]
    else [c]

/-- How one character is written between single quotes. -/
def basicChar (c : Char) : List Char :=
  match c with
  | '"' => ['\\', '"']
  | '\n' => ['\\', 'n']
  | c => escapeChar c

/-- The inside of three quotes. Of the quotes in a row every third is escaped; `run` is the number
of bare ones in front. -/
def basicLinesText (run : Nat) : List Char → List Char
  | [] => []
  | c :: rest =>
    if c = '"' then
      if run = 2 then '\\' :: '"' :: basicLinesText 0 rest
      else '"' :: basicLinesText (run + 1) rest
    else escapeChar c ++ basicLinesText 0 rest

/-- The line end after opening quotes, which a string of several lines gets. -/
def firstNewline (text : List Char) : List Char :=
  if text.contains '\n' then ['\n'] else []

def quoteAs (form : Quoting) (text : List Char) : List Char :=
  match form with
  | .basic => '"' :: (text.flatMap basicChar ++ ['"'])
  | .literal => '\'' :: (text ++ ['\''])
  | .basicLines => ['"', '"', '"'] ++ firstNewline text ++ basicLinesText 0 text ++ ['"', '"', '"']
  | .literalLines => ['\'', '\'', '\''] ++ firstNewline text ++ text ++ ['\'', '\'', '\'']

def quote (text : List Char) : List Char :=
  quoteAs (quotingFor text) text

end RecordMachine.Toml
