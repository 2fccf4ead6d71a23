import FlowGraph.Demo.Arguments
import FlowGraph.Registry.Json
import FlowGraph.Report.Log

/-!
# The demonstration as a command

From arguments and settings to what is printed. Writing the reports to a log is left to whoever has the
files: the command says what to write where, and words the result once it is known. What is said about
the use of the command is left to the command line.
-/

namespace FlowGraph.Demo

/-- What a command prints, and the number it exits with. -/
structure Output where
  exitCode : Nat
  stdout : String := ""
  stderr : String := ""
deriving DecidableEq, Repr

/-- Reports to be put into a log. -/
structure LogRequest where
  path : String
  append : Bool
  reports : List Report

/-- Values as a list. -/
def listed (values : List Value) : String :=
  "[" ++ ", ".intercalate (values.map (·.shown)) ++ "]"

/-- What a finished demonstration prints. -/
def Outcome.summary (o : Outcome) : String :=
  "Demo completed.\n" ++
  "  Loop values: " ++ listed o.values ++ "\n" ++
  "  Counter: " ++ Text.signedDecimal o.counter.toInt ++ "\n" ++
  "  Interval ticks: " ++ Text.signedDecimal o.ticks.toInt ++ "\n" ++
  "  Pulses: " ++ Text.decimal o.reports.length ++ "\n"

/-- What is printed once it is known whether the reports could be written. -/
def Output.afterWriting (o : Output) (path : String) : Except String Unit → Output
  | .ok () => { o with stdout := o.stdout ++ "  Reports: " ++ path ++ "\n" }
  | .error message =>
    { o with exitCode := 1, stderr := "Error writing " ++ path ++ ": " ++ message ++ "\n" }

/-- Runs the command up to the writing of reports. -/
def command (budget now : Nat) (setting : String → Option String) (a : Arguments) :
    Waited (Output × Option LogRequest) :=
  if a.catalogue then
    .answer ({ exitCode := 0, stdout := Registry.standard.catalogueText ++ "\n" }, none)
  else
    (run budget now (.ofSettings setting) a.options).andThen fun
      | .error e => .answer ({ exitCode := 1, stderr := e.message ++ "\n" }, none)
      | .ok o =>
        .answer ({ exitCode := 0, stdout := o.summary }, a.report.map (⟨·, a.append, o.reports⟩))

/-- Runs the command with the files of a tree. -/
def commandIn (t : FileTree) (budget now : Nat) (setting : String → Option String)
    (arguments : List String) : Waited (FileTree × Output) :=
  match Arguments.ofList setting arguments with
  | .error _ => .answer (t, { exitCode := 2 })
  | .ok a =>
    if a.help then .answer (t, { exitCode := 0 })
    else
      (command budget now setting a).andThen fun
        | (o, none) => .answer (t, o)
        | (o, some r) =>
          let (t, written) :=
            if r.append then ReportLog.append t r.path r.reports
            else ReportLog.save t r.path r.reports
          .answer (t, o.afterWriting r.path (written.mapError ReportLog.Error.message))

end FlowGraph.Demo
