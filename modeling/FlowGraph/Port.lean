import FlowGraph.Text.Decimal

/-!
# Nodes, ports and pulses by number

A node is known by its place in its graph, a port by its node and its place among the node's ports,
and a pulse by its place in the history of its graph. Which of a node's lists of ports a `Port` means,
inputs, outputs or flow outputs, depends on where it is used.
-/

namespace FlowGraph

structure NodeId where
  index : Nat
deriving DecidableEq, Repr, Inhabited

structure Port where
  node : NodeId
  index : Nat
deriving DecidableEq, Repr, Inhabited

structure PulseId where
  number : Nat
deriving DecidableEq, Repr, Inhabited

def NodeId.text (n : NodeId) : String :=
  "#" ++ Text.decimal n.index

def Port.text (p : Port) : String :=
  p.node.text ++ ":" ++ Text.decimal p.index

def PulseId.text (p : PulseId) : String :=
  "pulse-" ++ Text.decimal p.number

namespace Port

/-- Ports are ordered by node, then by place. -/
def le (p q : Port) : Bool :=
  p.node.index < q.node.index || p.node.index == q.node.index && p.index ≤ q.index

/-- The ports in order; equal ones stay side by side. -/
def sort (ports : List Port) : List Port :=
  ports.mergeSort le

theorem le_total (p q : Port) : (p.le q || q.le p) = true := by
  simp only [le, Bool.or_eq_true, Bool.and_eq_true, decide_eq_true_eq, beq_iff_eq]
  omega

theorem le_trans {p q r : Port} (h : p.le q = true) (k : q.le r = true) : p.le r = true := by
  simp only [le, Bool.or_eq_true, Bool.and_eq_true, decide_eq_true_eq, beq_iff_eq] at *
  omega

theorem sorted_sort (ports : List Port) : (sort ports).Pairwise fun p q => p.le q = true :=
  @List.pairwise_mergeSort Port le (fun _ _ _ => le_trans) le_total ports

end Port

end FlowGraph
