import FlowGraph.Node
import FlowGraph.Sink
import FlowGraph.Store
import FlowGraph.Table
import FlowGraph.Value.Datum

/-!
# What pulses share

The world is everything that outlives a pulse or is seen by several at once: the clock, the number of
pulses started, the tokens through which pulses are cancelled, the last observation of each reactive
input, the nodes' stores, the sinks, and the named cells.

A token is cancelled by itself or, unless it is detached, by shutting the graph down. Nothing ever
takes a cancellation back.

Tokens that shutting down would cancel have *seats*. A new token takes a seat behind the others; when a
token is given up, the token in the last seat moves to the seat that has become free. Shutting down tells
the token in the last seat, and then the others from the first seat on. A token that is cancelled already
is given up instead.

Whoever has a turn keeps it while nothing makes them wait. But only so many *waits* may come to their end
in one turn; after that the next one has to be left to another turn.
-/

namespace FlowGraph

structure Token where
  isDetached : Bool := false
  isCancelled : Bool := false
deriving DecidableEq, Repr

structure TokenId where
  index : Nat
deriving DecidableEq, Repr, Inhabited

/-- A sink is known by its name, or by the node that owns it. -/
inductive SinkId where
  | own (node : NodeId)
  | named (name : String)
deriving DecidableEq, Repr

/-- The sink that a node means. -/
def SinkRef.resolve (node : NodeId) : SinkRef → SinkId
  | .own => .own node
  | .named name => .named name

structure World where
  /-- Milliseconds on the clock. -/
  now : Nat := 0
  /-- How many pulses have been started. -/
  pulses : Nat := 0
  isShutDown : Bool := false
  /-- All tokens there have been. -/
  tokens : List Token := []
  /-- The tokens that shutting down would cancel, by seat. -/
  seats : List TokenId := []
  /-- How many waits have come to their end in the current turn. -/
  endedWaits : Nat := 0
  /-- The last value observed at each reactive input. -/
  observed : Table Port Value := ∅
  /-- The values in the nodes' stores. -/
  kept : Table NodeId Value := ∅
  sinks : Table SinkId Sink := ∅
  cells : Table String Datum := ∅

namespace World

/-- Whether a token is cancelled. -/
def isCancelled (w : World) (t : TokenId) : Bool :=
  match w.tokens[t.index]? with
  | some token => token.isCancelled || (!token.isDetached && w.isShutDown)
  | none => w.isShutDown

/-- Adds a token. It takes a seat unless shutting down will never have to cancel it. -/
def addToken (w : World) (token : Token) : World × TokenId :=
  let id : TokenId := ⟨w.tokens.length⟩
  let seats := if token.isDetached || w.isShutDown then w.seats else w.seats ++ [id]
  ({ w with tokens := w.tokens ++ [token], seats }, id)

/-- Gives up a token: whoever sits last takes its seat. -/
def giveUp (w : World) (t : TokenId) : World :=
  match w.seats.getLast? with
  | some last =>
    if w.seats.contains t then
      { w with seats := (w.seats.map fun s => if s = t then last else s).dropLast }
    else w
  | none => w

/-- The tokens that are told if some seats are gone through from the first on. -/
def round (w : World) : List TokenId → List TokenId
  | [] => []
  | t :: rest =>
    if w.isCancelled t then w.round (rest.getLast?.toList ++ rest.dropLast) else t :: w.round rest
termination_by seats => seats.length
decreasing_by
  · cases h : rest.getLast? <;> simp_all
    have := List.length_pos_iff.2 (List.ne_nil_of_mem (List.mem_of_getLast? h))
    omega
  · simp

/-- The tokens that shutting down would tell, in order. -/
def told (w : World) : List TokenId :=
  match w.seats.reverse.dropWhile w.isCancelled with
  | [] => []
  | last :: others => last :: w.round others.reverse

/-- A round passes over nobody except those that are cancelled already. -/
theorem mem_round {w : World} {t : TokenId} {seats : List TokenId} :
    t ∈ w.round seats ↔ t ∈ seats ∧ w.isCancelled t = false := by
  fun_induction round w seats with
  | case1 => simp
  | case2 u rest hu ih =>
    have moved : t ∈ rest.getLast?.toList ++ rest.dropLast ↔ t ∈ rest := by
      rcases rest.eq_nil_or_concat with rfl | ⟨front, last, rfl⟩ <;> simp [or_comm]
    rw [ih, moved]
    grind
  | case3 u rest hu ih =>
    rw [List.mem_cons, ih]
    grind

/-- Shutting down tells exactly those that it has to cancel. -/
theorem mem_told {w : World} {t : TokenId} :
    t ∈ w.told ↔ t ∈ w.seats ∧ w.isCancelled t = false := by
  have gone : ∀ {seats : List TokenId}, t ∈ seats.dropWhile w.isCancelled ∧ w.isCancelled t = false ↔
      t ∈ seats ∧ w.isCancelled t = false := by
    intro seats
    induction seats with
    | nil => simp
    | cons u rest ih =>
      rw [List.dropWhile_cons]
      grind
  rw [show t ∈ w.seats ↔ t ∈ w.seats.reverse from List.mem_reverse.symm, ← gone, told]
  split
  · next h => simp [h]
  · next last others h =>
    have live : w.isCancelled last = false := by
      have := List.head?_dropWhile_not w.isCancelled w.seats.reverse
      simpa [h] using this
    rw [h, List.mem_cons, List.mem_cons, mem_round, List.mem_reverse]
    grind

/-- Cancels a token. -/
def cancel (w : World) (t : TokenId) : World :=
  { w with tokens := w.tokens.modify t.index ({ · with isCancelled := true }) }

/-- Cancels every token that is not detached, present and future. -/
def shutDown (w : World) : World :=
  { w with isShutDown := true }

/-- How many waits may come to their end in one turn. -/
def waitsPerTurn : Nat :=
  128

/-- Whether the next wait has to be left to another turn. -/
def isTurnFull (w : World) : Bool :=
  waitsPerTurn ≤ w.endedWaits

/-- Somebody's turn begins. -/
def beginTurn (w : World) : World :=
  { w with endedWaits := 0 }

/-- A wait has come to its end. -/
def endWait (w : World) : World :=
  { w with endedWaits := w.endedWaits + 1 }

/-- The store of a node, as one that keeps values of the given type. -/
def store (w : World) (n : NodeId) (t : ValueType) : Store t.Carrier :=
  ⟨t.zero, (w.kept.get? n).bind (·.as? t)⟩

/-- Where a value is kept, there is something in the store that keeps values of its type. -/
theorem isSet_store {w : World} {n : NodeId} {v : Value} (kept : w.kept.get? n = some v) :
    (w.store n v.type).isSet = true := by
  rw [Store.isSet, store, kept, Option.bind_some, Value.isSome_as?_iff]

/-- Puts a store in the place of a node's. -/
def setStore (w : World) (n : NodeId) {t : ValueType} (s : Store t.Carrier) : World :=
  { w with kept :=
      match s.kept with
      | some c => w.kept.insert n (.of t c)
      | none => w.kept.erase n }

/-- A node's store is what was put in its place. -/
theorem store_setStore (w : World) (n : NodeId) {t : ValueType} (s : Store t.Carrier) :
    (w.setStore n s).store n t = { s with default := t.zero } := by
  obtain ⟨default, kept⟩ := s
  cases kept with
  | none => simp [store, setStore, Table.get?_erase]
  | some c => simp [store, setStore]

/-- Puts a value into the store of a node. -/
def remember (w : World) (n : NodeId) (v : Value) : World :=
  w.setStore n ((w.store n v.type).write v.carrier)

@[simp] theorem kept_remember (w : World) (n : NodeId) (v : Value) :
    (w.remember n v).kept = w.kept.insert n v := by
  show w.kept.insert n (.of v.type v.carrier) = w.kept.insert n v
  rw [Value.of_carrier]

/-- Replaces the value in the store of a node by a function of it. -/
def update (w : World) (n : NodeId) (t : ValueType) (f : t.Carrier → t.Carrier) : World :=
  w.setStore n ((w.store n t).update f)

@[simp] theorem kept_update (w : World) (n : NodeId) (t : ValueType) (f : t.Carrier → t.Carrier) :
    (w.update n t f).kept = w.kept.insert n (.of t (f (w.store n t).read)) := rfl

/-- What an update leaves in the store is the function of what was read there. -/
theorem read_update (w : World) (n : NodeId) (t : ValueType) (f : t.Carrier → t.Carrier) :
    ((w.update n t f).store n t).read = f (w.store n t).read := by
  rw [update, store_setStore]
  exact (w.store n t).read_update f

/-- The values logged to a sink. -/
def sink (w : World) (s : SinkId) : Sink :=
  (w.sinks.get? s).getD #[]

/-- Logs a value to a sink. -/
def push (w : World) (s : SinkId) (v : Value) : World :=
  { w with sinks := w.sinks.insert s ((w.sink s).push v) }

/-- Empties a sink. -/
def clear (w : World) (s : SinkId) : World :=
  { w with sinks := w.sinks.insert s #[] }

def setCell (w : World) (name : String) (d : Datum) : World :=
  { w with cells := w.cells.insert name d }

/-- Observes a reactive input. It has changed if it was never observed, or if its last observation and
the new value do not count as unchanged; only then is the new value kept. -/
def observe (w : World) (input : Port) (t : ValueType) (v : Value) : World × Bool :=
  if (w.observed.get? input).any (Value.unchanged t · v) then (w, false)
  else ({ w with observed := w.observed.insert input v }, true)

/-- Does one of the things that resetting a node does. -/
def undo (w : World) (n : NodeId) : Reset → World
  | .store t => w.setStore n (w.store n t).reset
  | .setCell name d => w.setCell name d

theorem kept_undo_store (w : World) (n : NodeId) (t : ValueType) :
    (w.undo n (.store t)).kept = w.kept.erase n := rfl

/-- Does what resetting some nodes does, one after the other. -/
def undoAll (w : World) : List (NodeId × Reset) → World
  | [] => w
  | (n, r) :: rest => (w.undo n r).undoAll rest

/-- Forgets the observations and resets nodes. -/
def reset (w : World) (resets : List (NodeId × Reset)) : World :=
  { w with observed := ∅ }.undoAll resets

end World

end FlowGraph
