import FlowGraph.Text.Blank
import FlowGraph.Text.Decimal
import FlowGraph.Text.Lowercase

/-!
# Configuration

Two options hold for every pulse of a graph. Named settings can override their defaults; a setting
that cannot be read is ignored, and a depth limit of zero counts as one that cannot be read.
-/

namespace FlowGraph

structure Config where
  /-- The greatest number of flow connections between a pulse's root and any of its activations. -/
  maxFlowDepth : Nat := 256
  /-- Whether a report lists the activated nodes, and not only their number. -/
  recordActivations : Bool := true
deriving DecidableEq, Repr

namespace Config

/-- The setting that overrides the depth limit. -/
def depthSetting : String :=
  "PULSEGRAPH_MAX_FLOW_DEPTH"

/-- The setting that overrides whether activations are listed. -/
def recordSetting : String :=
  "PULSEGRAPH_RECORD_ACTIVATIONS"

/-- Reads a depth limit: blanks aside, a positive number of at most sixty-four bits. -/
def readDepth? (s : String) : Option Nat := do
  let depth ← Text.unsignedWithin? Text.maxWord (Text.trim s.toList)
  if 0 < depth then some depth else none

/-- Reads a yes or no, blanks and letter case aside. -/
def readFlag? (s : String) : Option Bool :=
  match String.ofList (Text.lowercase (Text.trim s.toList)) with
  | "1" | "true" | "yes" => some true
  | "0" | "false" | "no" => some false
  | _ => none

/-- The defaults, overridden by the settings that can be read. -/
def ofSettings (setting : String → Option String) : Config where
  maxFlowDepth := ((setting depthSetting).bind readDepth?).getD 256
  recordActivations := ((setting recordSetting).bind readFlag?).getD true

end Config

end FlowGraph
