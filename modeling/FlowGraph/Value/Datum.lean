import FlowGraph.Value.Basic

/-!
# Data

What a variable of a script or a named cell holds: one value, or the values of a list input.
-/

namespace FlowGraph

inductive Datum where
  | value (v : Value)
  | list (vs : List Value)
deriving DecidableEq

namespace Datum

/-- Whether two data are the same kind of thing and their values count as unchanged. -/
def equal : Datum → Datum → Bool
  | value a, value b => a.unchanged a.type b
  | list as, list bs =>
    as.length == bs.length && (as.zip bs).all fun (a, b) => a.unchanged a.type b
  | _, _ => false

/-- The values in a datum, from the first to the last. -/
def values : Datum → List Value
  | value v => [v]
  | list vs => vs

end Datum

end FlowGraph
