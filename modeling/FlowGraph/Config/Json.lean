import FlowGraph.Config
import FlowGraph.Json.Basic

/-!
# Configuration as JSON

A configuration is read from a record of both options. Neither has a default here, and a depth limit
of zero is taken as it is.
-/

namespace FlowGraph.Config

/-- The configuration that a value describes. -/
def ofJson? (j : Json) : Option Config := do
  match ← j.record? ["max_flow_depth", "record_activations"] with
  | [some depth, some record] => some ⟨← depth.word?, ← record.bool?⟩
  | _ => none

end FlowGraph.Config
