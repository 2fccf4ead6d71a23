import FlowGraph.Demo.Command
import Std.Time.DateTime.Timestamp

/-!
# The command line

Runs the demonstration's command with the settings of the environment and the files of the machine.
-/

namespace FlowGraph.Demo

/-- A number of steps that no run comes near to. -/
def stepBudget : Nat :=
  1000000000000000

/-- The settings that matter, as the environment has them. -/
def environment : IO (String → Option String) := do
  let names := [countSetting, Config.depthSetting, Config.recordSetting]
  let values ← names.mapM fun name => return (name, ← IO.getEnv name)
  return fun name => (values.lookup name).join

/-- Puts reports into a log, after making the directories on the way to it. -/
def writeLog (r : LogRequest) : IO Unit := do
  if let some p := Path.ofText? r.path then
    if !p.parent.isEmpty then
      let start := if r.path.startsWith "/" then "/" else ""
      IO.FS.createDirAll (start ++ "/".intercalate p.parent)
  let handle ← IO.FS.Handle.mk r.path (if r.append then .append else .write)
  handle.write ⟨(ReportLog.toBytes r.reports).toArray⟩
  handle.flush

/-- Runs what is asked for. -/
def runWith (setting : String → Option String) (a : Arguments) : IO Output := do
  let now ← Std.Time.Timestamp.now
  let start := now.toMillisecondsSinceUnixEpoch.val.toNat
  match command stepBudget start setting a with
  | .outOfSteps => return { exitCode := 1 }
  | .answer (output, none) => return output
  | .answer (output, some r) =>
    try
      writeLog r
      return output.afterWriting r.path (.ok ())
    catch e => return output.afterWriting r.path (.error (ReportLog.Error.noAccess r.path (toString e)))

/-- How the command is used. -/
def usage : String :=
  "Usage: pulse_demo [OPTIONS]\n"

/-- Runs the command and returns the number to exit with. -/
def runCommand (arguments : List String) : IO UInt32 := do
  let setting ← environment
  let output : Output ←
    match Arguments.ofList setting arguments with
    | .error _ => pure { exitCode := 2, stderr := usage }
    | .ok a => if a.help then pure { exitCode := 0, stdout := usage } else runWith setting a
  (← IO.getStdout).putStr output.stdout
  (← IO.getStderr).putStr output.stderr
  return UInt32.ofNat output.exitCode

end FlowGraph.Demo

def main (arguments : List String) : IO UInt32 :=
  FlowGraph.Demo.runCommand arguments
