import FlowGraph.Pulse.Engine

/-!
# The machine that runs a pulse

A machine is a pulse under way: its state, the program of the node it is in, and the way back to the
nodes that were entered before. It moves one request at a time, and between two moves it is an ordinary
value, so a pulse can be set aside while it waits and resumed later. An error drops everything up to
the start of the pulse in which it arose; a pulse that another one runs hands its error to that one.
-/

namespace FlowGraph

/-- A program that waits for the one entered after it. -/
inductive Caller where
  /-- A node that entered another node. -/
  | node (scope : Scope) (next : Unit → Engine Unit)
  /-- A node that started another pulse; the pulse it belongs to is kept here. -/
  | pulse (outer : Pulse) (scope : Scope) (next : Except PulseError Report → Engine Unit)

structure Machine where
  pulse : Pulse
  scope : Scope
  program : Engine Unit
  callers : List Caller := []

/-- What a move leads to. -/
inductive Progress where
  | running (world : World) (machine : Machine)
  /-- The machine can go on when this much time has passed, or when its pulse is cancelled. -/
  | sleeping (world : World) (milliseconds : Nat) (machine : Machine)
  /-- The machine can go on when others have had their turn. -/
  | resting (world : World) (machine : Machine)
  | ended (world : World) (result : Except PulseError Report)

namespace Machine

/-- A machine at the start of a pulse. -/
def start (g : Graph) (w : World) (root : NodeId) (token : TokenId) : World × Machine :=
  let (w, pulse) := w.beginPulse root token
  (w, { pulse, scope := ⟨root, 0⟩, program := Engine.activation g ⟨root, 0⟩ })

/-- Enters a node. -/
def enter (m : Machine) (scope : Scope) (program : Engine Unit) (next : Unit → Engine Unit) : Machine :=
  { m with scope, program, callers := .node m.scope next :: m.callers }

/-- Starts a pulse within the current one, with a token of its own. -/
def nest (g : Graph) (w : World) (m : Machine) (root : NodeId)
    (next : Except PulseError Report → Engine Unit) : World × Machine :=
  let (w, token) := w.addToken {}
  let (w, inner) := start g w root token
  (w, { inner with callers := .pulse m.pulse m.scope next :: m.callers })

/-- Goes back to the caller of a program that is done. A pulse that another one ran gives up its
token. -/
def leave (w : World) (m : Machine) : Progress :=
  match m.callers with
  | [] => .ended w (.ok (m.pulse.report w))
  | .node scope next :: callers => .running w { m with scope, program := next (), callers }
  | .pulse outer scope next :: callers =>
    .running (w.giveUp m.pulse.token)
      { pulse := outer, scope, program := next (.ok (m.pulse.report w)), callers }

/-- Drops callers up to the start of the current pulse, and hands the error to what is there. -/
def unwind (w : World) (token : TokenId) (error : PulseError) : List Caller → Progress
  | [] => .ended w (.error error)
  | .node .. :: callers => unwind w token error callers
  | .pulse outer scope next :: callers =>
    .running (w.giveUp token) { pulse := outer, scope, program := next (.error error), callers }

/-- One move. -/
def step (g : Graph) (w : World) (m : Machine) : Progress :=
  match m.program with
  | .done () => m.leave w
  | .ask (.act action) next =>
    let (reply, w, pulse) := action.perform w m.pulse
    .running w { m with pulse, program := next reply }
  | .ask (.evaluate node depth) next =>
    .running w (m.enter ⟨node, depth⟩ (Engine.evaluation g ⟨node, depth⟩) next)
  | .ask (.activate node depth) next =>
    .running w (m.enter ⟨node, depth⟩ (Engine.activation g ⟨node, depth⟩) next)
  | .ask (.sleep milliseconds) next => .sleeping w milliseconds { m with program := next () }
  | .ask .rest next => .resting w { m with program := next () }
  | .ask .restart _ => .running w { m with program := Engine.process g m.scope }
  | .ask (.abort cause) _ => unwind w m.pulse.token (.aborted m.pulse.id cause) m.callers
  | .ask (.pulse root) next =>
    let (w, m) := m.nest g w root next
    .running w m

end Machine

end FlowGraph
