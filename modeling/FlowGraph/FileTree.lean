import FlowGraph.Table

/-!
# File trees

Directories and files under one root directory. A path is followed name by name from the root; every
name but the last has to lead to a directory. Operations either change the tree or say why they could
not.
-/

namespace FlowGraph

inductive FileError where
  | notFound
  | isADirectory
  | notADirectory
  | alreadyExists
  | invalidData
deriving DecidableEq, Repr

namespace FileError

/-- What the system says of an error. -/
def message : FileError → String
  | notFound => "No such file or directory (os error 2)"
  | isADirectory => "Is a directory (os error 21)"
  | notADirectory => "Not a directory (os error 20)"
  | alreadyExists => "File exists (os error 17)"
  | invalidData => "stream did not contain valid UTF-8"

end FileError

/-- How a path ends. -/
inductive PathEnd where
  | name
  /-- A slash after the last name: only a directory can be meant. -/
  | slash
  /-- One dot, or two: what comes before has to be a directory. -/
  | dots
deriving DecidableEq, Repr

/-- Where to look in a tree. -/
structure Path where
  /-- The names on the path. Two dots lead back up. -/
  names : List String
  ending : PathEnd
deriving DecidableEq, Repr

namespace Path

/-- A text cut at every slash. -/
def parts : List Char → List (List Char)
  | [] => [[]]
  | c :: rest =>
    match c == '/', parts rest with
    | true, ps => [] :: ps
    | false, [] => [[c]]
    | false, p :: ps => (c :: p) :: ps

/-- Whether a part of a path leads nowhere: it is empty or a single dot. -/
def isIdle (part : List Char) : Bool :=
  part == [] || part == ['.']

/-- How a path with the given parts ends. -/
def endOf (ps : List (List Char)) : PathEnd :=
  match (ps.filter (· != [])).getLast? with
  | none => .slash
  | some p =>
    if p == ['.'] || p == ['.', '.'] then .dots
    else if ps.getLast? == some [] then .slash
    else .name

/-- The path that a text spells; an empty text spells none. -/
def ofText? (s : String) : Option Path :=
  let ps := parts s.toList
  if s.isEmpty then none
  else some { names := (ps.filter (!isIdle ·)).map String.ofList, ending := endOf ps }

/-- The names that lead to the directory of what a path leads to. -/
def parent (p : Path) : List String :=
  p.names.dropLast

/-- What has to be followed to come to the end of a path. Dots at the end are followed as well. -/
def steps (p : Path) : List String :=
  if p.ending = .dots then p.names ++ ["."] else p.names

end Path

inductive FileEntry where
  | directory
  | file (content : List UInt8)
deriving DecidableEq

/-- Everything below the root, by the names that lead there. -/
structure FileTree where
  entries : Table (List String) FileEntry := ∅

namespace FileTree

/-- What is at a place; the root is a directory. -/
def entry? (t : FileTree) (place : List String) : Option FileEntry :=
  if place.isEmpty then some .directory else t.entries.get? place

/-- The place one name further on. -/
def follow (place : List String) (name : String) : List String :=
  if name = "." then place else if name = ".." then place.dropLast else place ++ [name]

/-- The place that names lead to, if all but the last lead to directories. -/
def locate (t : FileTree) (place : List String) : List String → Except FileError (List String)
  | [] => .ok place
  | [name] => .ok (follow place name)
  | name :: rest =>
    match t.entry? (follow place name) with
    | some .directory => t.locate (follow place name) rest
    | some (.file _) => .error .notADirectory
    | none => .error .notFound

/-- Makes every directory on the way that is not there yet, where the first is not there. -/
def makeMissing (t : FileTree) (place : List String) : List String → FileTree × Except FileError Unit
  | [] => (t, .ok ())
  | name :: rest =>
    let next := follow place name
    match t.entry? next with
    | some .directory => t.makeMissing next rest
    | some (.file _) => (t, .error .alreadyExists)
    | none => FileTree.makeMissing ⟨t.entries.insert next .directory⟩ next rest

/-- Makes every directory on the way that is not there yet. What has been made stays even if a file
turns out to be in the way. -/
def makeDirectories (t : FileTree) (place : List String) :
    List String → FileTree × Except FileError Unit
  | [] => (t, .ok ())
  | name :: rest =>
    let next := follow place name
    match t.entry? next with
    | some .directory => t.makeDirectories next rest
    | some (.file _) => (t, .error (if rest.isEmpty then .alreadyExists else .notADirectory))
    | none => t.makeMissing place (name :: rest)

/-- Makes the directory that a path leads to. Before dots at the end of the path only the directories
on the way to what they follow are made. -/
def makeDirectory (t : FileTree) (p : Path) : FileTree × Except FileError Unit :=
  if p.ending = .dots then
    match t.locate [] p.steps with
    | .ok _ => (t, .ok ())
    | .error .notFound =>
      match t.makeDirectories [] p.parent with
      | (t, .error e) => (t, .error e)
      | (t, .ok ()) => (t, (t.locate [] p.steps).map fun _ => ())
    | .error e => (t, .error e)
  else t.makeDirectories [] p.names

/-- Makes the directory that a text spells the path of. An empty text asks for nothing. -/
def makeDirectoryAt (t : FileTree) (s : String) : FileTree × Except FileError Unit :=
  match Path.ofText? s with
  | none => (t, .ok ())
  | some p => t.makeDirectory p

/-- The content of a file. -/
def read (t : FileTree) (p : Path) : Except FileError (List UInt8) := do
  match t.entry? (← t.locate [] p.steps) with
  | none => .error .notFound
  | some .directory => .error .isADirectory
  | some (.file content) => if p.ending = .slash then .error .notADirectory else .ok content

/-- Gives a file a new content that depends on the one it has; a missing file is made, and counts as
empty. A path with a slash at its end is refused before it is known what the name leads to. -/
def change (t : FileTree) (p : Path) (f : List UInt8 → List UInt8) : Except FileError FileTree := do
  let place ← t.locate [] p.steps
  if p.ending = .slash then .error .isADirectory
  else
    match t.entry? place with
    | some .directory => .error .isADirectory
    | some (.file content) => .ok ⟨t.entries.insert place (.file (f content))⟩
    | none => .ok ⟨t.entries.insert place (.file (f []))⟩

end FileTree

end FlowGraph
