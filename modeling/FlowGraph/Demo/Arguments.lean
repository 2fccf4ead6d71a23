import FlowGraph.Demo.Graph

/-!
# Arguments of the demonstration

Every option has a long name. One with a value takes it after an equals sign or from the next argument,
which must not look like an option itself; a single dash does not. No option may be given twice, a
plain flag takes no value, and there are no arguments besides options. A count that is not given comes
from a setting, if there is one.
-/

namespace FlowGraph.Demo

/-- What is wrong with some arguments. -/
inductive UsageError where
  | unexpected (argument : String)
  | repeated (option : String)
  | missingValue (option : String)
  | invalidValue (option value : String)
  | unneededValue (option : String)
  | missingReport
deriving DecidableEq, Repr

/-- The setting that gives the count when no option does. -/
def countSetting : String :=
  "PULSEGRAPH_DEMO_COUNT"

/-- The options that were given. -/
structure Given where
  help : Bool := false
  catalogue : Bool := false
  append : Bool := false
  count : Option Int32 := none
  interval : Option Int32 := none
  duration : Option Nat := none
  report : Option String := none
deriving DecidableEq

/-- What is asked for. -/
structure Arguments where
  help : Bool := false
  catalogue : Bool := false
  options : Options := {}
  report : Option String := none
  append : Bool := false
deriving DecidableEq

/-- An option that takes a value. -/
inductive ValueOption where
  | count
  | interval
  | duration
  | report
deriving DecidableEq

/-- An option that takes none. -/
inductive FlagOption where
  | help
  | catalogue
  | append
deriving DecidableEq

/-- What an argument with two dashes names. -/
def option? (name : List Char) : Option (ValueOption ⊕ FlagOption) :=
  match String.ofList name with
  | "count" => some (.inl .count)
  | "interval-ms" => some (.inl .interval)
  | "run-ms" => some (.inl .duration)
  | "report" => some (.inl .report)
  | "help" => some (.inr .help)
  | "catalogue" => some (.inr .catalogue)
  | "append" => some (.inr .append)
  | _ => none

namespace Given

/-- Reads an integer of 32 bits. -/
def int32 (option value : String) : Except UsageError Int32 :=
  match Text.int32? value.toList with
  | some n => .ok n
  | none => .error (.invalidValue option value)

/-- Reads a number of at most sixty-four bits. -/
def word (option value : String) : Except UsageError Nat :=
  match Text.unsignedWithin? Text.maxWord value.toList with
  | some n => .ok n
  | none => .error (.invalidValue option value)

/-- Takes note of an option with a value. -/
def setValue (g : Given) (o : ValueOption) (value : String) : Except UsageError Given :=
  match o with
  | .count => do
    let n ← int32 "--count" value
    if g.count.isSome then .error (.repeated "--count") else .ok { g with count := some n }
  | .interval => do
    let n ← int32 "--interval-ms" value
    if g.interval.isSome then .error (.repeated "--interval-ms")
    else .ok { g with interval := some n }
  | .duration => do
    let n ← word "--run-ms" value
    if g.duration.isSome then .error (.repeated "--run-ms") else .ok { g with duration := some n }
  | .report =>
    if value.isEmpty then .error (.invalidValue "--report" value)
    else if g.report.isSome then .error (.repeated "--report")
    else .ok { g with report := some value }

/-- Takes note of a flag. -/
def setFlag (g : Given) : FlagOption → Except UsageError Given
  | .help => .ok { g with help := true }
  | .catalogue =>
    if g.catalogue then .error (.repeated "--catalogue") else .ok { g with catalogue := true }
  | .append => if g.append then .error (.repeated "--append") else .ok { g with append := true }

/-- Whether an argument cannot be the value of the option before it. -/
def looksLikeOption (argument : String) : Bool :=
  match argument.toList with
  | '-' :: _ :: _ => true
  | _ => false

/-- Reads arguments one after the other. A request for help is granted as soon as it is seen. -/
def read (g : Given) : List String → Except UsageError Given
  | [] => .ok g
  | argument :: rest =>
    if g.help then .ok g
    else
      match argument.toList with
      | ['-', '-'] =>
        match rest with
        | [] => .ok g
        | next :: _ => .error (.unexpected next)
      | '-' :: '-' :: body =>
        let name := body.takeWhile (· != '=')
        let shown := String.ofList ('-' :: '-' :: name)
        match option? name, body.dropWhile (· != '=') with
        | none, _ => .error (.unexpected argument)
        | some (.inr _), _ :: _ => .error (.unneededValue shown)
        | some (.inr o), [] => do read (← g.setFlag o) rest
        | some (.inl o), _ :: value => do read (← g.setValue o (String.ofList value)) rest
        | some (.inl o), [] =>
          match rest with
          | [] => .error (.missingValue shown)
          | value :: rest =>
            if looksLikeOption value then .error (.missingValue shown)
            else do read (← g.setValue o value) rest
      | '-' :: 'h' :: _ => .ok { g with help := true }
      | _ => .error (.unexpected argument)

/-- The count, from the option or the setting. -/
def countOr (g : Given) (setting : String → Option String) : Except UsageError (Option Int32) :=
  match g.count, setting countSetting with
  | some n, _ => .ok (some n)
  | none, some value => (int32 "--count" value).map some
  | none, none => .ok none

end Given

/-- What some arguments ask for. -/
def Arguments.ofList (setting : String → Option String) (arguments : List String) :
    Except UsageError Arguments := do
  let g ← ({} : Given).read arguments
  if g.help then .ok { help := true }
  else
    let count ← g.countOr setting
    if g.append && g.report.isNone then .error .missingReport
    else
      .ok
        { catalogue := g.catalogue
          options :=
            { count := count.getD 3, interval := g.interval.getD 50, duration := g.duration.getD 200 }
          report := g.report
          append := g.append }

end FlowGraph.Demo
