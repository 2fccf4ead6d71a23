import FlowGraph.Descriptor
import FlowGraph.Json.Basic

/-!
# Descriptors as JSON

The form in which editors are shown a node. Only flow outputs are ever read back.
-/

namespace FlowGraph

namespace Input

def toJson (i : Input) : Json :=
  .ofMembers
    [("name", .text i.name), ("type_name", .text i.type.label),
      ("kind", .text (if i.isList then "list" else "single")), ("required", .bool i.isRequired),
      ("reactive", .bool i.isReactive)]

end Input

namespace Output

def toJson (o : Output) : Json :=
  .ofMembers [("name", .text o.name), ("type_name", .text o.type.label)]

end Output

namespace Flow

def toJson (f : Flow) : Json :=
  .ofMembers [("name", .text f.name), ("is_loop", .bool f.isLoop)]

/-- The flow output that a value describes. -/
def ofJson? (j : Json) : Option Flow := do
  match ← j.record? ["name", "is_loop"] with
  | [some name, some isLoop] => some ⟨← name.text?, ← isLoop.bool?⟩
  | _ => none

end Flow

namespace Descriptor

def toJson (d : Descriptor) : Json :=
  .ofMembers
    [("name", .text d.name), ("category", .text d.category), ("flow_input", .bool d.flowInput),
      ("collapsed", .bool d.collapsed), ("inputs", .array (d.inputs.map (·.toJson))),
      ("outputs", .array (d.outputs.map (·.toJson))), ("flows", .array (d.flows.map (·.toJson)))]

end Descriptor

end FlowGraph
