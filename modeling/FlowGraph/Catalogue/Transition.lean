/-!
# Transitions of a condition

How a condition changed between two looks at it. The four cases are told apart by the two values, so
each pair of values is one transition.
-/

namespace FlowGraph

inductive Transition where
  | becameTrue
  | becameFalse
  | stillTrue
  | stillFalse
deriving DecidableEq, Repr

namespace Transition

def between : (previous current : Bool) → Transition
  | false, true => .becameTrue
  | true, false => .becameFalse
  | true, true => .stillTrue
  | false, false => .stillFalse

/-- The flow output that stands for the transition. -/
def edgeName : Transition → String
  | .becameTrue => "Became True"
  | .becameFalse => "Became False"
  | .stillTrue => "Still True"
  | .stillFalse => "Still False"

/-- The place of that flow output among the four. -/
def edgeIndex : Transition → Nat
  | .becameTrue => 0
  | .becameFalse => 1
  | .stillTrue => 2
  | .stillFalse => 3

/-- The transitions of a condition that starts out as `previous` and then takes the values. -/
def along (previous : Bool) : List Bool → List Transition
  | [] => []
  | current :: rest => between previous current :: along current rest

theorem between_injective {p c p' c' : Bool} (h : between p c = between p' c') : p = p' ∧ c = c' := by
  cases p <;> cases c <;> cases p' <;> cases c' <;> simp_all [between]

end Transition

end FlowGraph
