import Mathlib.Data.List.Permutation
import FlowGraph.Proofs.Built
import FlowGraph.Proofs.Frames

/-!
# How deep flow goes

The depth at which a machine works is the length of a walk along flow connections from the root of its
pulse, and it never exceeds the limit. So a pulse that is aborted for its depth has walked as many
connections as the limit allows. Whether there was one more to walk is not asked: firing counts against
the limit before its connections are looked at.
-/

namespace FlowGraph

namespace Graph

/-- A walk of some length along flow connections. -/
inductive Walk (g : Graph) (root : NodeId) : (length : Nat) → NodeId → Prop where
  | root : Walk g root 0 root
  | step {length n k} (walk : Walk g root length n) (leads : g.Leads n k) : Walk g root (length + 1) k

/-- A program of a node that flow has reached, or that is computed for one that it has reached. -/
structure Reached (g : Graph) (root : NodeId) (s : Scope) (program : Engine Unit) : Prop where
  asks : program.Asks (Engine.Local g s)
  depth : s.depth ≤ g.config.maxFlowDepth
  walk : g.isPure s.node = false → g.Walk root s.depth s.node

variable {g : Graph} {root root' : NodeId} {s s' : Scope} {program : Engine Unit}

theorem Reached.goesOn {r : EngineRequest} {next : r.Reply → Engine Unit}
    (h : g.Reached root s (.ask r next)) (reply : r.Reply) : g.Reached root s (next reply) :=
  ⟨h.asks.2 reply, h.depth, h.walk⟩

/-- A root is reached without any connection. -/
theorem reached_root (g : Graph) (root : NodeId) :
    g.Reached root ⟨root, 0⟩ (Engine.activation g ⟨root, 0⟩) :=
  ⟨Engine.local_activation, Nat.zero_le _, fun _ => .root⟩

/-- What is entered has been reached: a pure node from its reader, a flow-driven one along one more
connection. -/
theorem Reached.enters {r : EngineRequest} {next : r.Reply → Engine Unit}
    (h : g.Reached root s (.ask r next)) (enters : Engine.Enters g root s r root' s' program) :
    g.Reached root' s' program := by
  cases enters with
  | evaluate n depth =>
      obtain ⟨pure, rfl⟩ : g.isPure n = true ∧ depth = s.depth := by
        cases h.asks.1 with
        | answering answers => exact answers
      constructor
      · exact Engine.answering_evaluation.mono fun _ answers => .answering answers
      · exact h.depth
      · intro driven
        cases pure.symm.trans driven
  | activate n depth =>
      obtain ⟨rfl, below, driven, leads⟩ : depth = s.depth + 1 ∧ s.depth < g.config.maxFlowDepth ∧
          g.isPure s.node = false ∧ g.Leads s.node n := by
        cases h.asks.1 with
        | answering answers => exact answers
      constructor
      · exact Engine.local_activation
      · exact below
      · exact fun _ => (h.walk driven).step leads
  | restart =>
      constructor
      · exact Engine.answering_process.mono fun _ answers => .answering answers
      · exact h.depth
      · exact h.walk
  | pulse => exact reached_root g root'

end Graph

namespace Machine

/-- The root of the pulse that was started first. -/
def outermost : NodeId → List Caller → NodeId
  | root, [] => root
  | root, .node .. :: callers => outermost root callers
  | _, .pulse outer .. :: callers => outermost outer.root callers

variable {g : Graph} {w w' : World} {m m' : Machine}

/-- An error ends a machine only in the pulse that was started first. -/
theorem unwind_ended {callers : List Caller} {token : TokenId} {error : PulseError}
    {result : Except PulseError Report} (ends : unwind w token error callers = .ended w' result)
    (root : NodeId) : result = .error error ∧ outermost root callers = root := by
  induction callers with
  | nil =>
      cases ends
      exact ⟨rfl, rfl⟩
  | cons caller callers ih =>
      cases caller with
      | node s next => exact ih ends
      | pulse outer s next => cases ends

theorem outermost_unwind {callers : List Caller} {token : TokenId} {error : PulseError}
    (moves : (unwind w token error callers).next? = some (w', m')) (root : NodeId) :
    outermost m'.pulse.root m'.callers = outermost root callers := by
  induction callers with
  | nil => cases moves
  | cons caller callers ih =>
      cases caller with
      | node s next => exact ih moves
      | pulse outer s next =>
          cases moves
          rfl

/-- The pulse that was started first stays the same. -/
theorem outermost_step (moves : (m.step g w).next? = some (w', m')) :
    outermost m'.pulse.root m'.callers = outermost m.pulse.root m.callers := by
  rw [Machine.step] at moves
  split at moves <;> try (cases moves; rfl)
  next finished =>
    rw [Machine.leave] at moves
    split at moves
    next => cases moves
    next s next callers eq =>
      rw [eq]
      cases moves
      rfl
    next outer s next callers eq =>
      rw [eq]
      cases moves
      rfl
  next action next asks =>
    have root := action.root_perform w m.pulse
    cases moves
    exact congrArg (outermost · m.callers) root
  next cause next asks => exact outermost_unwind moves _

end Machine

namespace Graph

variable {g : Graph} {root : NodeId} {others : World → World → Prop} {w₀ w w' : World} {token : TokenId}
  {events : List Event} {m : Machine}

/-- At every point of every run, what is left to do belongs to nodes that flow has reached. -/
theorem reached_of_run
    (run : Machine.Run g others (Machine.start g w₀ root token).1 (Machine.start g w₀ root token).2
      events w m) : m.Framed g.Reached :=
  have start : Machine.Framed g.Reached (Machine.start g w₀ root token).2 :=
    ⟨g.reached_root root, trivial⟩
  start.run Reached.goesOn Reached.enters run

theorem outermost_of_run
    (run : Machine.Run g others (Machine.start g w₀ root token).1 (Machine.start g w₀ root token).2
      events w m) : Machine.outermost m.pulse.root m.callers = root := by
  induction run with
  | refl => rfl
  | others _ _ ih => exact ih
  | move _ moves ih => exact (Machine.outermost_step moves).trans ih

/-- A pulse is aborted for its depth only if a walk from its root has as many connections as the limit
allows, and leads to the node that the error names. -/
theorem walk_of_depth_exceeded
    (run : Machine.Run g others (Machine.start g w₀ root token).1 (Machine.start g w₀ root token).2
      events w m)
    {id : PulseId} {name : String} {limit : Nat}
    (ends : m.step g w = .ended w' (.error (.aborted id (.flowDepthExceeded name limit)))) :
    limit = g.config.maxFlowDepth ∧
      ∃ n k, g.member? n = some k ∧ k.name = name ∧ g.Walk root limit n := by
  have reached := (reached_of_run run).program
  have first := outermost_of_run run
  rw [Machine.step] at ends
  split at ends <;> try cases ends
  next finished =>
    rw [Machine.leave] at ends
    split at ends <;> cases ends
  next cause next asks =>
    -- An abort that ends the machine arose in the pulse that was started first, so in the one with this root.
    obtain ⟨same, outermost⟩ := Machine.unwind_ended ends m.pulse.root
    obtain rfl : m.pulse.root = root := outermost.symm.trans first
    cases same
    rw [asks] at reached
    cases reached.asks.1 with
    | answering answers =>
        obtain ⟨rfl, deep, driven, k, member, named⟩ := answers
        have walk := reached.walk driven
        rw [Nat.le_antisymm reached.depth deep] at walk
        exact ⟨rfl, _, k, member, named, walk⟩

/-- A log that is one connection away from where flow starts, and a limit of one connection. -/
def logAtLimit : Graph where
  name := "limit"
  config := { maxFlowDepth := 1 }
  members := [⟨"entry", CatalogueNode.onTrigger.node⟩, ⟨"log", (CatalogueNode.log .int .own).node⟩]
  valueEdges := []
  flowEdges := [⟨⟨⟨0⟩, 0⟩, ⟨1⟩⟩]

theorem logAtLimit_fromCatalogue : logAtLimit.FromCatalogue where
  built := ⟨"limit", { maxFlowDepth := 1 },
    [.add "entry" CatalogueNode.onTrigger.node, .add "log" (CatalogueNode.log .int .own).node,
      .connectFlow ⟨"entry", "Next", "log"⟩], by cbv⟩
  nodes m member := by
    simp only [logAtLimit, List.mem_cons, List.not_mem_nil, or_false] at member
    rcases member with rfl | rfl <;> exact ⟨_, rfl⟩

/-- The log is reached and fires, and there is nothing more than the one connection that led to it. -/
theorem walk_of_depth_exceeded_log :
    ∃ events w w' m,
      Machine.Run logAtLimit (fun _ _ => True) (Machine.start logAtLimit {} ⟨0⟩ ⟨0⟩).1
        (Machine.start logAtLimit {} ⟨0⟩ ⟨0⟩).2 events w m ∧
      m.step logAtLimit w = .ended w' (.error (.aborted ⟨1⟩ (.flowDepthExceeded "log" 1))) ∧
      1 = logAtLimit.config.maxFlowDepth ∧
        ∃ n k, logAtLimit.member? n = some k ∧ k.name = "log" ∧ logAtLimit.Walk ⟨0⟩ 1 n := by
  have run : Machine.Run logAtLimit (fun _ _ => True) _ _ _ _ _ :=
    Machine.run_alone logAtLimit (fun _ _ => trivial) (Machine.start logAtLimit {} ⟨0⟩ ⟨0⟩).1
      (Machine.start logAtLimit {} ⟨0⟩ ⟨0⟩).2 9
  exact ⟨_, _, _, _, run, rfl, walk_of_depth_exceeded run rfl⟩

/-- No walk has more connections than the limit allows, and yet the pulse is aborted for its depth. -/
theorem depth_exceeded_within_limit :
    logAtLimit.FromCatalogue ∧
      (∀ length n, logAtLimit.Walk ⟨0⟩ length n → length ≤ logAtLimit.config.maxFlowDepth) ∧
      ∃ moves w',
        (Machine.alone logAtLimit (Machine.start logAtLimit {} ⟨0⟩ ⟨0⟩).1
          (Machine.start logAtLimit {} ⟨0⟩ ⟨0⟩).2 moves).machine.step logAtLimit
          (Machine.alone logAtLimit (Machine.start logAtLimit {} ⟨0⟩ ⟨0⟩).1
            (Machine.start logAtLimit {} ⟨0⟩ ⟨0⟩).2 moves).world =
        .ended w' (.error (.aborted ⟨1⟩ (.flowDepthExceeded "log" 1))) := by
  have leads {n k : NodeId} (leads : logAtLimit.Leads n k) : n = ⟨0⟩ ∧ k = ⟨1⟩ := by
    obtain ⟨flow, target⟩ := leads
    obtain ⟨e, member, rfl⟩ := List.mem_map.mp target
    obtain ⟨edge, source⟩ := List.mem_filter.mp member
    rw [List.mem_singleton.mp edge] at source ⊢
    exact ⟨congrArg Port.node (of_decide_eq_true source).symm, rfl⟩
  have short (length : Nat) (n : NodeId) (walk : logAtLimit.Walk ⟨0⟩ length n) :
      length = 0 ∨ length = 1 ∧ n = ⟨1⟩ := by
    induction walk with
    | root => exact .inl rfl
    | step walk next ih =>
        obtain ⟨source, target⟩ := leads next
        rcases ih with rfl | ⟨_, rfl⟩
        · exact .inr ⟨rfl, target⟩
        · cases source
  refine ⟨logAtLimit_fromCatalogue, fun length n walk => ?_, 9, _, rfl⟩
  rcases short length n walk with rfl | ⟨rfl, _⟩
  · exact Nat.zero_le _
  · exact Nat.le_refl _

end Graph

end FlowGraph
