/-!
# Directories and paths

A tree of directories and files, and the paths that lead through it. A path is the text between
slashes, kept as it was given; moving to its parent is a matter of that text alone, while following
it is a matter of the tree. Names and paths have greatest lengths, which only following minds.
-/

namespace RecordMachine

/-- A file, or a directory with what is in it. -/
inductive Entry where
  | file (content : List UInt8)
  | directory (entries : List (String × Entry))
deriving Inhabited

/-! ## Paths -/

/-- A path: the pieces of its text between slashes, and whether a slash stands in front. -/
structure Path where
  absolute : Bool
  pieces : List String
deriving DecidableEq, Inhabited

namespace Path

def ofString (text : String) : Path :=
  match text.toList with
  | [] => ⟨false, []⟩
  | '/' :: rest => ⟨true, pieces rest⟩
  | text => ⟨false, pieces text⟩
where
  pieces (text : List Char) : List String :=
    (text.splitOn '/').map String.ofList

def text (p : Path) : String :=
  (if p.absolute then "/" else "") ++ "/".intercalate p.pieces

/-- Whether a piece leaves a directory where it is. -/
def isIdle (piece : String) : Bool :=
  piece == "" || piece == "."

/-- The pieces without the idle ones at their end. A single dot at the start of a path that is not
absolute stays, since it is all that names the directory. -/
def trimmed (p : Path) : List String :=
  let rest := (p.pieces.reverse.dropWhile isIdle).reverse
  if rest.isEmpty && !p.absolute && p.pieces.head? == some "." then ["."] else rest

/-- The path without its last piece; the root and the empty path have no parent. -/
def parent? (p : Path) : Option Path :=
  match p.trimmed with
  | [] => none
  | pieces =>
    let p : Path := ⟨p.absolute, pieces.dropLast⟩
    some ⟨p.absolute, p.trimmed⟩

/-- The path of an entry in the directory of the path. -/
def join (p : Path) (name : String) : Path :=
  match p.pieces.getLast? with
  | some "" => ⟨p.absolute, p.pieces.dropLast ++ [name]⟩
  | _ => ⟨p.absolute, p.pieces ++ [name]⟩

end Path

/-! ## The tree -/

/-- Why a path leads nowhere. -/
inductive PathError where
  /-- A name is not there. -/
  | missing
  /-- Something that is not a directory should hold the next name. -/
  | notDirectory
  /-- A name or the whole path is longer than any can be. -/
  | tooLong
  /-- The path has a null character, which no name can have. -/
  | malformed
deriving DecidableEq

def nameLimit : Nat := 255

def pathLimit : Nat := 4095

namespace Entry

/-- What lies under some names, each in the directory before it. -/
def get? : List String → Entry → Option Entry
  | [], e => some e
  | name :: rest, .directory entries => (entries.lookup name).bind (get? rest)
  | _ :: _, .file _ => none

/-- Replaces what is under a name, or adds it. -/
def replace (name : String) (new : Entry) : List (String × Entry) → List (String × Entry)
  | [] => [(name, new)]
  | (other, e) :: rest =>
    if other = name then (name, new) :: rest else (other, e) :: replace name new rest

/-- Puts an entry under some names and makes the directories on the way. -/
def insert (new : Entry) : List String → Entry → Entry
  | [], _ => new
  | name :: rest, .directory entries =>
    let below := (entries.lookup name).getD (.directory [])
    .directory (replace name (insert new rest below) entries)
  | name :: rest, .file _ => .directory [(name, insert new rest (.directory []))]

/-- Makes a directory under some names, with those on the way, unless something is there. -/
def makeDirectory (names : List String) (root : Entry) : Entry :=
  if (root.get? names).isSome then root else insert (.directory []) names root

/-- Where the pieces of a path lead from a place, both given by names from the root. Two dots lead
to the directory above, and stay at the root. -/
def follow (root : Entry) : List String → List String → Except PathError (List String)
  | place, [] => .ok place
  | place, piece :: rest =>
    match root.get? place with
    | some (.directory entries) =>
      if Path.isIdle piece then follow root place rest
      else if piece = ".." then follow root place.dropLast rest
      else if nameLimit < piece.utf8ByteSize then .error .tooLong
      else if (entries.lookup piece).isSome then follow root (place ++ [piece]) rest
      else .error .missing
    | some (.file _) => .error .notDirectory
    | none => .error .missing

end Entry

/-- A tree of files, and the directory that paths without a slash in front start from. -/
structure FileTree where
  root : Entry := .directory []
  workingDirectory : List String := []

namespace FileTree

def find (t : FileTree) (p : Path) : Except PathError Entry :=
  if p.text.toList.contains '\x00' then .error .malformed
  else if pathLimit < p.text.utf8ByteSize then .error .tooLong
  else if !p.absolute && p.pieces.isEmpty then .error .missing
  else do
    let place ← t.root.follow (if p.absolute then [] else t.workingDirectory) p.pieces
    match t.root.get? place with
    | some entry => return entry
    | none => throw .missing

def contains (t : FileTree) (p : Path) : Bool :=
  (t.find p).isOk

end FileTree

end RecordMachine
