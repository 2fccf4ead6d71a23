import Mathlib.Data.List.Nodup
import Mathlib.Logic.Equiv.Defs
import FlowGraph.Pulse.Action

/-!
# Renaming nodes

Nodes are numbered in the order in which they were added. Their ids stand in ports, sinks, reports and
errors, and they are the keys of everything that a pulse or the world remembers. A permutation of the ids
carries all this over to a graph in which the same nodes have other numbers. Every action of a pulse does
the same there: it is replied with the same, and what it leaves behind is carried over from what it
leaves here. Only a list of nodes in order of their ids has to be put in order again.
-/

namespace FlowGraph

/-- New ids for all nodes. -/
abbrev Renaming :=
  Equiv.Perm NodeId

namespace Table

variable {κ α : Type}

theorem eq_of_entries {t u : Table κ α} (h : t.entries = u.entries) : t = u := by
  cases t
  cases u
  cases h
  rfl

/-- The table in which every key has been replaced. -/
def rename (e : Equiv.Perm κ) (t : Table κ α) : Table κ α where
  entries := t.entries.map fun entry => (e entry.1, entry.2)
  nodup := by
    have keys : (t.entries.map fun entry => (e entry.1, entry.2)).map Prod.fst =
        (t.entries.map Prod.fst).map e := by simp
    rw [keys]
    exact t.nodup.map e.injective

variable {e : Equiv.Perm κ} (t : Table κ α)

@[simp] theorem rename_empty : (∅ : Table κ α).rename e = ∅ := rfl

@[simp] theorem size_rename : (t.rename e).size = t.size := by
  simp [size, rename]

/-- Keeping some keys is keeping what they have become. -/
theorem rename_filterKeys {p q : κ → Bool} (same : ∀ k, q (e k) = p k) :
    (t.filterKeys p).rename e = (t.rename e).filterKeys q :=
  eq_of_entries (by simp [filterKeys, rename, List.filter_map, Function.comp_def, same])

variable [DecidableEq κ] (k : κ) (v : α)

@[simp] theorem get?_rename : (t.rename e).get? (e k) = t.get? k := by
  simp [get?, rename, List.find?_map, Function.comp_def]

@[simp] theorem rename_insert : (t.insert k v).rename e = (t.rename e).insert (e k) v :=
  eq_of_entries (by simp [insert, rename, List.filter_map, Function.comp_def])

@[simp] theorem rename_erase : (t.erase k).rename e = (t.rename e).erase (e k) :=
  t.rename_filterKeys (by simp)

@[simp] theorem rename_insertNew : (t.insertNew k v).rename e = (t.rename e).insertNew (e k) v := by
  unfold insertNew contains
  rw [get?_rename]
  split
  · rfl
  · exact rename_insert t k v

end Table

namespace Renaming

variable (π : Renaming)

/-- A port belongs to its node. -/
def port : Equiv.Perm Port where
  toFun p := ⟨π p.node, p.index⟩
  invFun p := ⟨π.symm p.node, p.index⟩
  left_inv p := by simp
  right_inv p := by simp

@[simp] theorem port_mk (n : NodeId) (i : Nat) : π.port ⟨n, i⟩ = ⟨π n, i⟩ := rfl

@[simp] theorem node_port (p : Port) : (π.port p).node = π p.node := rfl

@[simp] theorem index_port (p : Port) : (π.port p).index = p.index := rfl

/-- A sink of a node's own belongs to the node; a sink with a name is nobody's. -/
def sink : Equiv.Perm SinkId where
  toFun
    | .own n => .own (π n)
    | .named name => .named name
  invFun
    | .own n => .own (π.symm n)
    | .named name => .named name
  left_inv s := by cases s <;> simp
  right_inv s := by cases s <;> simp

@[simp] theorem sink_resolve (n : NodeId) (s : SinkRef) : π.sink (s.resolve n) = s.resolve (π n) := by
  cases s <;> rfl

/-- Some nodes in order of their ids. -/
def inOrder (nodes : List NodeId) : List NodeId :=
  (nodes.map π).mergeSort fun n m => n.index ≤ m.index

@[simp] theorem mem_inOrder {nodes : List NodeId} {n : NodeId} : π n ∈ π.inOrder nodes ↔ n ∈ nodes := by
  simp [inOrder]

end Renaming

variable (π : Renaming)

/-! ## What can be told of a pulse -/

def NodeError.rename : NodeError → NodeError
  | .unknownNode n => .unknownNode (π n)
  | .unknownPort name port => .unknownPort name port
  | .typeMismatch n port expected => .typeMismatch (π n) port expected
  | .flowDepthExceeded name limit => .flowDepthExceeded name limit
  | .invariantViolation name message => .invariantViolation name message

def PulseError.rename : PulseError → PulseError
  | .nodeNotFound n => .nodeNotFound (π n)
  | .unknownNodeName name => .unknownNodeName name
  | .notTriggerable name => .notTriggerable name
  | .aborted id cause => .aborted id (cause.rename π)

/-- The report of the same pulse: it has activated what its nodes have become. -/
def Report.rename (r : Report) : Report :=
  { r with root := π r.root, activations := r.activations.map π }

/-- What a pulse has led to. -/
def Renaming.result : Except PulseError Report → Except PulseError Report
  | .ok r => .ok (r.rename π)
  | .error e => .error (e.rename π)

namespace Renaming

/-- Renaming back undoes renaming. -/
@[simp] theorem result_symm (r : Except PulseError Report) : Renaming.result π.symm (π.result r) = r := by
  cases r with
  | ok r => simp [result, Report.rename]
  | error e =>
      cases e with
      | aborted id cause => cases cause <;> simp [result, PulseError.rename, NodeError.rename]
      | _ => simp [result, PulseError.rename]

end Renaming

/-! ## Pulses and the world -/

def World.rename (w : World) : World :=
  { w with
    observed := w.observed.rename π.port
    kept := w.kept.rename π
    sinks := w.sinks.rename π.sink }

def Pulse.rename (p : Pulse) : Pulse :=
  { p with
    root := π p.root
    published := p.published.rename π.port
    memo := p.memo.rename π.port
    activations := p.activations.map π }

namespace World

variable {π} (w : World)

@[simp] theorem rename_store (n : NodeId) (t : ValueType) : (w.rename π).store (π n) t = w.store n t := by
  simp [store, rename]

@[simp] theorem rename_sink (s : SinkId) : (w.rename π).sink (π.sink s) = w.sink s := by
  simp [sink, rename]

theorem rename_setStore (n : NodeId) {t : ValueType} (s : Store t.Carrier) :
    (w.setStore n s).rename π = (w.rename π).setStore (π n) s := by
  obtain ⟨default, kept⟩ := s
  cases kept <;> simp [setStore, rename]

theorem rename_remember (n : NodeId) (v : Value) :
    (w.remember n v).rename π = (w.rename π).remember (π n) v := by
  rw [remember, rename_setStore, remember, rename_store]

theorem rename_update (n : NodeId) (t : ValueType) (f : t.Carrier → t.Carrier) :
    (w.update n t f).rename π = (w.rename π).update (π n) t f := by
  rw [update, rename_setStore, update, rename_store]

theorem rename_push (s : SinkId) (v : Value) : (w.push s v).rename π = (w.rename π).push (π.sink s) v := by
  rw [push, push, rename_sink]
  simp [rename]

theorem rename_giveUp (t : TokenId) : (w.giveUp t).rename π = (w.rename π).giveUp t := by
  have seats : (w.rename π).seats = w.seats := rfl
  rw [giveUp, giveUp, seats]
  cases w.seats.getLast? with
  | none => rfl
  | some last =>
      dsimp only
      split <;> rfl

theorem rename_beginPulse (root : NodeId) (token : TokenId) :
    (w.rename π).beginPulse (π root) token =
      ((w.beginPulse root token).1.rename π, (w.beginPulse root token).2.rename π) := by
  simp [beginPulse, rename, Pulse.rename]

theorem rename_observe (input : Port) (t : ValueType) (v : Value) :
    (w.rename π).observe (π.port input) t v =
      ((w.observe input t v).1.rename π, (w.observe input t v).2) := by
  have last : (w.rename π).observed.get? (π.port input) = w.observed.get? input :=
    Table.get?_rename w.observed input
  rw [observe, observe, last]
  split
  · rfl
  · simp [rename]

theorem rename_undo (n : NodeId) (r : Reset) : (w.undo n r).rename π = (w.rename π).undo (π n) r := by
  cases r with
  | store t => rw [undo, rename_setStore, undo, rename_store]
  | setCell name d => rfl

theorem rename_undoAll (resets : List (NodeId × Reset)) :
    (w.undoAll resets).rename π = (w.rename π).undoAll (resets.map fun (n, r) => (π n, r)) := by
  induction resets generalizing w with
  | nil => rfl
  | cons step rest ih =>
      rw [undoAll, ih, rename_undo]
      rfl

theorem rename_reset (resets : List (NodeId × Reset)) :
    (w.reset resets).rename π = (w.rename π).reset (resets.map fun (n, r) => (π n, r)) :=
  rename_undoAll _ resets

end World

namespace Pulse

variable {π} (p : Pulse)

theorem rename_memoize (output : Port) (v : Value) :
    (p.memoize output v).rename π = (p.rename π).memoize (π.port output) v := by
  simp [memoize, rename]

/-- What is evicted belongs to the same nodes. -/
theorem rename_publish (output : Port) (v : Value) (dependents : List NodeId) :
    (p.publish output v dependents).rename π =
      (p.rename π).publish (π.port output) v (π.inOrder dependents) := by
  have memo := p.memo.rename_filterKeys (e := π.port)
    (p := fun port => !dependents.contains port.node)
    (q := fun port => !(π.inOrder dependents).contains port.node) (by simp)
  simp only [publish, rename, Table.rename_insert, memo, ← Table.size_rename (e := π.port) p.memo,
    ← Table.size_rename (e := π.port) (p.memo.filterKeys _)]

theorem rename_completeEvaluation (resting : List (Port × Value)) :
    (p.completeEvaluation resting).rename π =
      (p.rename π).completeEvaluation (resting.map fun (output, v) => (π.port output, v)) := by
  have fill : ∀ p : Pulse, (resting.foldl (fun p (output, v) => p.memoize output v) p).rename π =
      (resting.map fun (output, v) => (π.port output, v)).foldl
        (fun p (output, v) => p.memoize output v) (p.rename π) := by
    intro p
    induction resting generalizing p with
    | nil => rfl
    | cons entry rest ih =>
        rw [List.foldl_cons, ih, rename_memoize]
        rfl
  exact fill _

theorem rename_begin (n : NodeId) (list : Bool) :
    (p.begin n list).rename π = (p.rename π).begin (π n) list := by
  cases list <;> simp [begin, rename]

theorem report_rename (w : World) : (p.rename π).report (w.rename π) = (p.report w).rename π := by
  simp [report, rename, Report.rename, World.isCancelled, World.rename]

end Pulse

/-! ## Actions -/

namespace Action

/-- The same action on what the nodes have become. -/
def rename : Action → Action
  | .isCancelled => .isCancelled
  | .isTurnFull => .isTurnFull
  | .endWait => .endWait
  | .pulseId => .pulseId
  | .published output => .published (π.port output)
  | .memoized output => .memoized (π.port output)
  | .countHit => .countHit
  | .publish output v dependents => .publish (π.port output) v (π.inOrder dependents)
  | .memoize output v => .memoize (π.port output) v
  | .completeEvaluation resting =>
    .completeEvaluation (resting.map fun (output, v) => (π.port output, v))
  | .observe input t v => .observe (π.port input) t v
  | .countSuppression => .countSuppression
  | .begin n list => .begin (π n) list
  | .remembered n t => .remembered (π n) t
  | .remember n v => .remember (π n) v
  | .update n t f => .update (π n) t f
  | .push s v => .push (π.sink s) v
  | .cell name => .cell name
  | .setCell name d => .setCell name d
  | .cancel => .cancel
  | .shutDown => .shutDown
  | .reset resets => .reset (resets.map fun (n, r) => (π n, r))

theorem reply_rename (a : Action) : (a.rename π).Reply = a.Reply := by
  cases a <;> rfl

/-- An action does the same wherever its nodes have gone to. -/
theorem perform_rename (a : Action) (w : World) (p : Pulse) :
    (a.rename π).perform (w.rename π) (p.rename π) =
      (cast (a.reply_rename π).symm (a.perform w p).1, (a.perform w p).2.1.rename π,
        (a.perform w p).2.2.rename π) := by
  cases a with
  | published output =>
      exact congrArg (·, w.rename π, p.rename π) (Table.get?_rename p.published output)
  | memoized output => exact congrArg (·, w.rename π, p.rename π) (Table.get?_rename p.memo output)
  | publish output v dependents =>
      exact congrArg ((), w.rename π, ·) (p.rename_publish output v dependents).symm
  | memoize output v => exact congrArg ((), w.rename π, ·) (p.rename_memoize output v).symm
  | completeEvaluation resting =>
      exact congrArg ((), w.rename π, ·) (p.rename_completeEvaluation resting).symm
  | observe input t v =>
      have compared : (w.rename π).observe (π.port input) t v = _ := w.rename_observe input t v
      exact congrArg (fun seen => (seen.2, seen.1, p.rename π)) compared
  | «begin» n list => exact congrArg ((), w.rename π, ·) (p.rename_begin n list).symm
  | remembered n t =>
      exact congrArg (fun s : Store t.Carrier => (s.read, w.rename π, p.rename π)) (w.rename_store n t)
  | remember n v => exact congrArg ((), ·, p.rename π) (w.rename_remember n v).symm
  | update n t f =>
      have updated := w.rename_update (π := π) n t f
      have read : ((w.rename π).update (π n) t f).store (π n) t = (w.update n t f).store n t := by
        rw [← updated, World.rename_store]
      exact congrArg₂ (fun (s : Store t.Carrier) w => (s.read, w, p.rename π)) read updated.symm
  | push s v => exact congrArg ((), ·, p.rename π) (w.rename_push s v).symm
  | reset resets => exact congrArg ((), ·, p.rename π) (w.rename_reset resets).symm
  | _ => rfl

end Action

end FlowGraph
