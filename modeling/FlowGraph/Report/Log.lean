import FlowGraph.FileTree
import FlowGraph.Report.Json
import FlowGraph.Text.Blank
import FlowGraph.Text.Utf8

/-!
# Report logs

A log is a file with one report on each line. Blank lines do not count as reports, though they count as
lines. Loading goes line by line and stops at the first that is not text or holds no report; what comes
after it does not matter.
-/

namespace FlowGraph.ReportLog

/-- The lines of a file. A line ends before a newline, or a carriage return and a newline; what follows
the last newline is a line only if it is not empty. -/
def splitLines : List UInt8 → List (List UInt8)
  | [] => []
  | b :: rest =>
    if b = 10 then [] :: splitLines rest
    else if b = 13 ∧ rest.head? = some 10 then splitLines rest
    else
      match splitLines rest with
      | [] => [[b]]
      | l :: ls => (b :: l) :: ls

/-- Why the content of a file is no log. -/
inductive Fault where
  /-- A line that is not text. -/
  | notText
  /-- A line, counted from one, that holds no report. -/
  | noReport (line : Nat)
deriving DecidableEq, Repr

/-- The reports on some lines, the first of which has the number `line`. -/
def readLines (line : Nat) : List (List UInt8) → Except Fault (List Report)
  | [] => .ok []
  | bytes :: rest =>
    match Text.decode? bytes with
    | none => .error .notText
    | some s =>
      if Text.isAllBlank s.toList then readLines (line + 1) rest
      else
        match Report.ofText? s with
        | none => .error (.noReport line)
        | some r => (readLines (line + 1) rest).map (r :: ·)

/-- The reports in a log. -/
def ofBytes (content : List UInt8) : Except Fault (List Report) :=
  readLines 1 (splitLines content)

/-- The lines of some reports. -/
def toBytes (reports : List Report) : List UInt8 :=
  reports.flatMap fun r => Text.encode r.line ++ [10]

/-- What can be wrong with a log. -/
inductive Cause where
  | file (error : FileError)
  /-- A line, counted from one, that holds no report. -/
  | noReport (line : Nat)
deriving DecidableEq, Repr

def Cause.ofFault : Fault → Cause
  | .notText => .file .invalidData
  | .noReport line => .noReport line

/-- Why a log could not be loaded or written. -/
structure Error where
  /-- Where the log was looked for, as it was asked for. -/
  path : String
  cause : Cause
deriving DecidableEq, Repr

namespace Error

/-- What is said when the files do not grant access to a log. -/
def noAccess (path cause : String) : String :=
  "Cannot access report log " ++ path ++ ": " ++ cause

/-- The message of an error, up to what is wrong with the text of a line. -/
def message (e : Error) : String :=
  match e.cause with
  | .file error => noAccess e.path error.message
  | .noReport line => "Invalid pulse report at " ++ e.path ++ ":" ++ Text.decimal line

end Error

/-- The path that a text spells. -/
def path (s : String) : Except FileError Path :=
  match Path.ofText? s with
  | some p => .ok p
  | none => .error .notFound

/-- The error of what the files at a path do not allow. -/
def refused (s : String) (error : FileError) : Error :=
  { path := s, cause := .file error }

/-- Loads a log. -/
def load (t : FileTree) (s : String) : Except Error (List Report) := do
  let content ← (do t.read (← path s)).mapError (refused s)
  (ofBytes content).mapError fun fault => { path := s, cause := .ofFault fault }

/-- Changes the content of a log. Missing directories on the way to it are made first, and stay even if
the log cannot be written. -/
def change (t : FileTree) (s : String) (f : List UInt8 → List UInt8) : FileTree × Except Error Unit :=
  match path s with
  | .error e => (t, .error (refused s e))
  | .ok p =>
    match t.makeDirectories [] p.parent with
    | (t, .error e) => (t, .error (refused s e))
    | (t, .ok ()) =>
      match t.change p f with
      | .error e => (t, .error (refused s e))
      | .ok t => (t, .ok ())

/-- Writes a log anew. -/
def save (t : FileTree) (s : String) (reports : List Report) : FileTree × Except Error Unit :=
  change t s fun _ => toBytes reports

/-- Adds reports at the end of a log. -/
def append (t : FileTree) (s : String) (reports : List Report) : FileTree × Except Error Unit :=
  change t s (· ++ toBytes reports)

end FlowGraph.ReportLog
