import FlowGraph.Value.Basic

/-!
# Sinks

A sink is the list of the values logged to it. Several handles may lead to one sink: what is pushed
through one of them is seen through all. A shelf keeps sinks and handles apart, each handle being the
number of its sink.
-/

namespace FlowGraph

/-- The values logged to a sink, in order. -/
abbrev Sink := Array Value

structure Shelf where
  sinks : List Sink := [#[]]
  handles : List Nat := [0]

namespace Shelf

/-- Changes the sink behind a handle. -/
def change (s : Shelf) (handle : Nat) (f : Sink → Sink) : Shelf :=
  match s.handles[handle]? with
  | none => s
  | some i => { s with sinks := s.sinks.modify i f }

def push (s : Shelf) (handle : Nat) (v : Value) : Shelf :=
  s.change handle (·.push v)

def clear (s : Shelf) (handle : Nat) : Shelf :=
  s.change handle fun _ => #[]

/-- Adds a handle to the sink behind an existing one. -/
def share (s : Shelf) (handle : Nat) : Shelf :=
  match s.handles[handle]? with
  | none => s
  | some i => { s with handles := s.handles ++ [i] }

/-- Adds a sink and a handle to it. -/
def addSink (s : Shelf) : Shelf where
  sinks := s.sinks ++ [#[]]
  handles := s.handles ++ [s.sinks.length]

/-- The sinks as the handles show them. -/
def view (s : Shelf) : List Sink :=
  s.handles.map fun i => s.sinks[i]?.getD #[]

end Shelf

end FlowGraph
