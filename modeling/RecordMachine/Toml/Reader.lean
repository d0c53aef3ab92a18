import RecordMachine.Text.Hexadecimal
import RecordMachine.Toml.Basic
import RecordMachine.Toml.Number

/-!
# Reading TOML

A text is read line by line. Lines end with a line feed, which a carriage return may precede, and no
other control character but the tab stands anywhere outside an escape. A mark that only says in
which order the octets of the text come may stand in front.
-/

namespace RecordMachine.Toml

/-! ## Characters between tokens -/

def isSpace (c : Char) : Bool :=
  c == ' ' || c == '\t'

/-- Whether a character may stand for itself in a comment or a string. -/
def isPlain (c : Char) : Bool :=
  c == '\t' || (0x20 ≤ c.toNat && c.toNat != 0x7f)

def skipSpace (text : List Char) : List Char :=
  text.dropWhile isSpace

/-- What follows a line end in front of the text, if one is there. -/
def newline? : List Char → Option (List Char)
  | '\n' :: rest => some rest
  | '\r' :: '\n' :: rest => some rest
  | _ => none

/-- Drops a comment in front, without the end of its line. -/
def skipComment : List Char → List Char
  | '#' :: rest => rest.dropWhile isPlain
  | text => text

/-- What follows the rest of a line on which nothing more is said. -/
def endLine? (text : List Char) : Option (List Char) :=
  match skipComment (skipSpace text) with
  | [] => some []
  | rest => newline? rest

/-- Drops blanks, line ends and comments in front; `comment` says that a comment has begun. -/
def skipLines (comment : Bool) : List Char → List Char
  | [] => []
  | c :: rest =>
    if c = '\n' ∨ (c = '\r' ∧ rest.head? = some '\n') then skipLines false rest
    else if comment then if isPlain c then skipLines true rest else c :: rest
    else if isSpace c then skipLines false rest
    else if c = '#' then skipLines true rest
    else c :: rest

/-! ## Strings -/

/-- The character that a letter after a backslash stands for. -/
def escaped? : Char → Option Char
  | 'b' => some '\x08'
  | 't' => some '\t'
  | 'n' => some '\n'
  | 'f' => some '\x0c'
  | 'r' => some '\r'
  | '"' => some '"'
  | '\\' => some '\\'
  | _ => none

def charOfHex? (digits : List Char) : Option Char := do
  let n ← Text.digitsValue? 16 digits
  if n.isValidChar then some (Char.ofNat n) else none

def readBasic : List Char → Option (List Char × List Char)
  | [] => none
  | '"' :: rest => some ([], rest)
  | '\\' :: 'u' :: a :: b :: c :: d :: rest =>
    match charOfHex? [a, b, c, d], readBasic rest with
    | some c, some (s, rest) => some (c :: s, rest)
    | _, _ => none
  | '\\' :: 'U' :: a :: b :: c :: d :: e :: f :: g :: h :: rest =>
    match charOfHex? [a, b, c, d, e, f, g, h], readBasic rest with
    | some c, some (s, rest) => some (c :: s, rest)
    | _, _ => none
  | '\\' :: e :: rest =>
    match escaped? e, readBasic rest with
    | some c, some (s, rest) => some (c :: s, rest)
    | _, _ => none
  | c :: rest =>
    if c ≠ '\\' ∧ isPlain c then (readBasic rest).map fun (s, rest) => (c :: s, rest) else none

def readLiteral : List Char → Option (List Char × List Char)
  | [] => none
  | '\'' :: rest => some ([], rest)
  | c :: rest =>
    if isPlain c then (readLiteral rest).map fun (s, rest) => (c :: s, rest) else none

/-- The end of a string of several lines: three quotes, before which up to two more belong to the
string. -/
def closing? (quote : Char) : List Char → Option (List Char × List Char)
  | a :: b :: c :: rest =>
    if a = quote ∧ b = quote ∧ c = quote then
      match rest with
      | d :: e :: more =>
        if d = quote ∧ e = quote then some ([quote, quote], more)
        else if d = quote then some ([quote], e :: more)
        else some ([], rest)
      | [d] => if d = quote then some ([quote], []) else some ([], rest)
      | [] => some ([], [])
    else none
  | _ => none

/-- Whether only blanks stand before the end of the line. -/
def endsLine (text : List Char) : Bool :=
  (newline? (skipSpace text)).isSome

/-- Reads a string of several lines with escapes. A backslash at the end of a line takes away all
blanks and line ends up to the next character; `skipping` says that this is going on. -/
def readBasicLines (skipping : Bool) (text : List Char) : Option (List Char × List Char) :=
  match closing? '"' text with
  | some (quotes, rest) => some (quotes, rest)
  | none =>
    match text with
    | [] => none
    | '\n' :: rest =>
      if skipping then readBasicLines true rest
      else (readBasicLines false rest).map fun (s, rest) => ('\n' :: s, rest)
    | '\r' :: '\n' :: rest =>
      if skipping then readBasicLines true rest
      else (readBasicLines false rest).map fun (s, rest) => ('\n' :: s, rest)
    | '\\' :: 'u' :: a :: b :: c :: d :: rest =>
      match charOfHex? [a, b, c, d], readBasicLines false rest with
      | some c, some (s, rest) => some (c :: s, rest)
      | _, _ => none
    | '\\' :: 'U' :: a :: b :: c :: d :: e :: f :: g :: h :: rest =>
      match charOfHex? [a, b, c, d, e, f, g, h], readBasicLines false rest with
      | some c, some (s, rest) => some (c :: s, rest)
      | _, _ => none
    | '\\' :: e :: rest =>
      if endsLine (e :: rest) then readBasicLines true (e :: rest)
      else
        match escaped? e, readBasicLines false rest with
        | some c, some (s, rest) => some (c :: s, rest)
        | _, _ => none
    | c :: rest =>
      if skipping && isSpace c then readBasicLines true rest
      else if c ≠ '\\' ∧ isPlain c then
        (readBasicLines false rest).map fun (s, rest) => (c :: s, rest)
      else none

def readLiteralLines (text : List Char) : Option (List Char × List Char) :=
  match closing? '\'' text with
  | some (quotes, rest) => some (quotes, rest)
  | none =>
    match text with
    | [] => none
    | '\n' :: rest => (readLiteralLines rest).map fun (s, rest) => ('\n' :: s, rest)
    | '\r' :: '\n' :: rest => (readLiteralLines rest).map fun (s, rest) => ('\n' :: s, rest)
    | c :: rest =>
      if isPlain c then (readLiteralLines rest).map fun (s, rest) => (c :: s, rest) else none

/-- Drops the line end that may follow the opening quotes of a string of several lines. -/
def skipFirstNewline (text : List Char) : List Char :=
  (newline? text).getD text

/-- Reads a string of any kind, its opening quotes included. -/
def readString : List Char → Option (List Char × List Char)
  | '"' :: '"' :: '"' :: rest => readBasicLines false (skipFirstNewline rest)
  | '"' :: rest => readBasic rest
  | '\'' :: '\'' :: '\'' :: rest => readLiteralLines (skipFirstNewline rest)
  | '\'' :: rest => readLiteral rest
  | _ => none

/-! ## Keys -/

def isBare (c : Char) : Bool :=
  c.isAlphanum || c == '-' || c == '_'

def readKeyPart : List Char → Option (String × List Char)
  | '"' :: rest => (readBasic rest).map fun (s, rest) => (String.ofList s, rest)
  | '\'' :: rest => (readLiteral rest).map fun (s, rest) => (String.ofList s, rest)
  | text =>
    match text.takeWhile isBare with
    | [] => none
    | part => some (String.ofList part, text.dropWhile isBare)

/-- Reads a dotted key and the blanks around it. The first argument bounds the number of parts. -/
def readKey : Nat → List Char → Option (Key × List Char)
  | 0, _ => none
  | limit + 1, text =>
    match readKeyPart (skipSpace text) with
    | none => none
    | some (part, rest) =>
      match skipSpace rest with
      | '.' :: rest => (readKey limit rest).map fun (key, rest) => (part :: key, rest)
      | rest => some ([part], rest)

/-! ## Values -/

/-- Reads a date, a time or a number. What is a date is read as one, and what is a float is not read
as an integer. -/
def readScalar (text : List Char) : Option (Toml × List Char) :=
  ((readMoment text).map fun (m, rest) => (Toml.moment m, rest))
    <|> ((readFloat text).map fun (x, rest) => (.float x, rest))
    <|> ((readInteger text).map fun (n, rest) => (.integer n, rest))

/-- The inline table of some entries, unless two of their keys are in each other's way. -/
def tableOf? (entries : List (List String × Toml)) : Option Toml :=
  if (entries.map Prod.fst).Pairwise Key.Apart then some (.table entries) else none

mutual

/-- Reads a value. The first argument bounds the number of nested calls, the second the nesting of
arrays and inline tables. -/
def readValue : Nat → Nat → List Char → Option (Toml × List Char)
  | 0, _, _ => none
  | fuel + 1, depth, text =>
    match text with
    | 't' :: 'r' :: 'u' :: 'e' :: rest => some (.boolean true, rest)
    | 'f' :: 'a' :: 'l' :: 's' :: 'e' :: rest => some (.boolean false, rest)
    | '[' :: rest =>
      match depth with
      | 0 => none
      | depth + 1 =>
        (readItems fuel depth rest).map fun (items, rest) => (.array items, rest)
    | '\x7b' :: rest =>
      match depth with
      | 0 => none
      | depth + 1 =>
        match skipSpace rest with
        | '\x7d' :: rest => some (.table [], rest)
        | rest =>
          match readEntries fuel depth rest with
          | none => none
          | some (entries, rest) => (tableOf? entries).map fun table => (table, rest)
    | c :: _ =>
      if c = '"' ∨ c = '\'' then
        (readString text).map fun (s, rest) => (.string (String.ofList s), rest)
      else readScalar text
    | [] => none

/-- Reads the items of an array and its closing bracket. A comma may follow the last item. -/
def readItems : Nat → Nat → List Char → Option (List Toml × List Char)
  | 0, _, _ => none
  | fuel + 1, depth, text =>
    match skipLines false text with
    | ']' :: rest => some ([], rest)
    | text =>
      match readValue fuel depth text with
      | none => none
      | some (item, rest) =>
        match skipLines false rest with
        | ',' :: rest =>
          (readItems fuel depth rest).map fun (items, rest) => (item :: items, rest)
        | ']' :: rest => some ([item], rest)
        | _ => none

/-- Reads the entries of an inline table, at least one, and its closing bracket. They stand on one
line, and no comma follows the last of them. -/
def readEntries : Nat → Nat → List Char → Option (List (List String × Toml) × List Char)
  | 0, _, _ => none
  | fuel + 1, depth, text =>
    match readKey keyLimit text with
    | some (key, '=' :: rest) =>
      match readValue fuel depth (skipSpace rest) with
      | none => none
      | some (value, rest) =>
        match skipSpace rest with
        | ',' :: rest =>
          (readEntries fuel depth rest).map fun (entries, rest) => ((key, value) :: entries, rest)
        | '\x7d' :: rest => some ([(key, value)], rest)
        | _ => none
    | _ => none

end

/-! ## Lines -/

/-- Reads what a line says, up to its last token. The first argument bounds nested calls. -/
def readLine (fuel : Nat) : List Char → Option (Line × List Char)
  | '[' :: '[' :: rest =>
    match readKey keyLimit rest with
    | some (key, ']' :: ']' :: rest) => some (.listHeader key, rest)
    | _ => none
  | '[' :: rest =>
    match readKey keyLimit rest with
    | some (key, ']' :: rest) => some (.header key, rest)
    | _ => none
  | text =>
    match readKey keyLimit text with
    | some (key, '=' :: rest) =>
      (readValue fuel nestingLimit (skipSpace rest)).map fun (value, rest) =>
        (.entry key value, rest)
    | _ => none

/-- Reads lines to the end of the text. The first argument bounds their number, the second the
number of nested calls within one of them. -/
def readLines : Nat → Nat → List Char → Option (List Line)
  | 0, _, _ => none
  | count + 1, fuel, text =>
    match skipLines false text with
    | [] => some []
    | text =>
      match readLine fuel text with
      | none => none
      | some (line, rest) =>
        match endLine? rest with
        | none => none
        | some rest => (readLines count fuel rest).map (line :: ·)

/-- Drops the mark of the order of octets in front. -/
def skipMark : List Char → List Char
  | '\ufeff' :: rest => rest
  | text => text

/-- Reads a document. Every line and every nested call but the outermost ones comes after a
character of its own, so the length of the text bounds their numbers. -/
def parse? (text : List Char) : Option (List Line) :=
  readLines (text.length + 1) (2 * text.length + 2) (skipMark text)

end RecordMachine.Toml
