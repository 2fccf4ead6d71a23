import FlowGraph.Descriptor.Json
import FlowGraph.Json.Writer
import FlowGraph.Registry

/-!
# Catalogues as JSON

A catalogue is an array with one object for each node type. As a text it is laid out in lines.
-/

namespace FlowGraph

namespace CatalogueEntry

def toJson (e : CatalogueEntry) : Json :=
  .ofMembers
    [("name", .text e.name), ("category", .text e.category),
      ("type_filter", .array (e.filter.map fun t => .text t.name)),
      ("descriptor", e.descriptor.toJson)]

end CatalogueEntry

namespace Registry

/-- The catalogue of a registry. -/
def toJson (r : Registry) : Json :=
  .array (r.catalogue.map (·.toJson))

/-- The text of the catalogue. -/
def catalogueText (r : Registry) : String :=
  r.toJson.lines

end Registry

end FlowGraph
