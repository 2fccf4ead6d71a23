import FlowGraph.Graph.Basic

/-!
# Peeling a dependency relation

Kahn's algorithm. Each node has a degree, the number of its dependencies not yet released. A node of
degree zero is ready; taking it releases the edges that start at it, and a node whose degree thereby
drops to zero becomes ready in turn. When nothing is ready any more, the nodes whose degree is not zero
are *stuck*: they lie on a cycle or behind one. Every step uses up edges or a ready node, so it ends.

`Tally` is the same as a loop over one queue, which counts the nodes it takes and could go wrong: a degree
that is zero cannot be lowered.
-/

namespace FlowGraph

namespace Peel

/-- An edge from a node to one that depends on it, both by number. -/
abbrev Edge := Nat × Nat

/-- The number of edges into each of the first `n` nodes. -/
def degrees (n : Nat) (edges : List Edge) : List Nat :=
  (List.range n).map fun i => edges.countP (·.2 = i)

/-- Lowers the degree of a node by one, and marks it as ready if none is left. -/
def release (state : List Nat × List Nat) (target : Nat) : List Nat × List Nat :=
  let degree := state.1.modify target (· - 1)
  if degree[target]? = some 0 then (degree, state.2 ++ [target]) else (degree, state.2)

/-- The nodes that depend directly on a node, once for each edge. -/
def successors (edges : List Edge) (node : Nat) : List Nat :=
  (edges.filter (·.1 = node)).map Prod.snd

/-- The edges that start at other nodes. -/
def without (edges : List Edge) (node : Nat) : List Edge :=
  edges.filter (·.1 ≠ node)

theorem length_without_lt {edges : List Edge} {node : Nat}
    (h : (successors edges node).isEmpty = false) : (without edges node).length < edges.length := by
  obtain ⟨_, hm⟩ := List.exists_mem_of_ne_nil _ (by simpa using h : successors edges node ≠ [])
  obtain ⟨e, he, _⟩ := List.mem_map.1 hm
  obtain ⟨mem, hn⟩ := List.mem_filter.1 he
  exact List.length_filter_lt_length_iff_exists.2 ⟨e, mem, by simpa using hn⟩

/-- Takes ready nodes until none is left and returns the degrees that remain. -/
def run (degree : List Nat) (edges : List Edge) : (ready : List Nat) → List Nat
  | [] => degree
  | node :: ready =>
    if (successors edges node).isEmpty then run degree edges ready
    else
      let (degree, freed) := (successors edges node).foldl release (degree, [])
      run degree (without edges node) (ready ++ freed)
termination_by ready => (edges.length, ready.length)
decreasing_by
  · exact Prod.Lex.right _ (by simp)
  · rename_i h
    exact Prod.Lex.left _ _ (length_without_lt (by simpa using h))

/-- The degrees that remain when `n` nodes are peeled. -/
def remaining (n : Nat) (edges : List Edge) : List Nat :=
  let degree := degrees n edges
  run degree edges ((List.range n).filter fun i => degree[i]? = some 0)

/-- The first stuck node. -/
def stuck? (n : Nat) (edges : List Edge) : Option Nat :=
  (remaining n edges).findIdx? (0 < ·)

/-! ## A loop over one queue -/

/-- Where the loop over the queue stands. -/
structure Tally where
  /-- For each node, how many edges into it have not been released. -/
  degree : List Nat
  /-- The nodes in the queue, the next one first. -/
  waiting : List Nat
  /-- All nodes that have been put into the queue so far. -/
  queued : List Nat
  /-- How many nodes have been taken out of the queue. -/
  taken : Nat

namespace Tally

/-- The degrees of all nodes, and those of degree zero in the queue. -/
def start (n : Nat) (edges : List Edge) : Tally :=
  let ready := (List.range n).filter fun i => (degrees n edges)[i]? = some 0
  ⟨degrees n edges, ready, ready, 0⟩

/-- Lowers the degree of a node by one, and puts the node into the queue if none is left. This fails if the
degree is zero already, or if there is no such node. -/
def lower? (t : Tally) (target : Nat) : Option Tally :=
  match t.degree[target]? with
  | some 0 | none => none
  | some (d + 1) =>
    let t := { t with degree := t.degree.set target d }
    if d = 0 then some { t with waiting := t.waiting ++ [target], queued := t.queued ++ [target] }
    else some t

/-- One pass of the loop, with the node that it takes and those that stay in the queue. -/
def pass? (edges : List Edge) (t : Tally) (node : Nat) (rest : List Nat) : Option Tally :=
  (successors edges node).foldlM lower? { t with waiting := rest, taken := t.taken + 1 }

/-- What the loop reports when it is over: the first node that has edges left, unless all `n` nodes have
been taken. -/
def stuck? (t : Tally) (n : Nat) : Option Nat :=
  if t.taken < n then some ((t.degree.findIdx? (0 < ·)).getD 0) else none

end Tally

/-- The loop goes on, without a pass that fails, until the queue is empty. -/
inductive Drains (edges : List Edge) : Tally → Tally → Prop where
  | idle {t} (empty : t.waiting = []) : Drains edges t t
  | pass {t node rest next last} (first : t.waiting = node :: rest)
      (passes : t.pass? edges node rest = some next) (goesOn : Drains edges next last) :
      Drains edges t last

end Peel

/-- The value connections as edges between nodes. -/
def ValueEdge.dependency (e : ValueEdge) : Peel.Edge :=
  (e.source.node.index, e.target.node.index)

end FlowGraph
