import FlowGraph.Proofs.Composing
import FlowGraph.Proofs.Recomputing

/-!
# How programs count

A reading of a pure node's output begins with looking it up. Either the memo has a value, and that counts as
a hit, or the node is computed; the computation is counted when it is over, and the reader then fetches the
value without counting anything. The rules keep to this whatever the nodes are, so each reading has counted
as a hit or has asked for a computation by the time the reader goes on. The readings that a pulse has made
can be told from its requests alone.
-/

namespace FlowGraph

/-! ## What a pulse has asked for -/

/-- The requests of one pulse. -/
abbrev Requests :=
  List EngineRequest

/-- The requests that a pulse has made. -/
def Log.of (log : Log) (id : PulseId) : Requests :=
  log.filterMap fun entry => if entry.1 = id then some entry.2 else none

theorem Log.of_snoc_self (log : Log) (id : PulseId) (r : EngineRequest) :
    Log.of (log ++ [(id, r)]) id = log.of id ++ [r] := by
  simp [Log.of]

theorem Log.of_snoc_of_ne (log : Log) {id : PulseId} {entry : PulseId × EngineRequest}
    (other : entry.1 ≠ id) : Log.of (log ++ [entry]) id = log.of id := by
  simp [Log.of, other]

theorem Log.of_eq_nil {log : Log} {id : PulseId} (unlogged : ∀ entry ∈ log, entry.1 ≠ id) :
    log.of id = [] := by
  rw [Log.of, List.filterMap_eq_nil_iff]
  intro entry member
  rw [if_neg (unlogged entry member)]

/-- The node that a request computes. -/
def EngineRequest.computes? : EngineRequest → Option NodeId
  | .evaluate n _ => some n
  | _ => none

/-- Whether a request begins an activation. -/
def EngineRequest.begins : EngineRequest → Bool
  | .act (.begin ..) => true
  | _ => false

/-- How many readings of outputs of pure nodes have begun, and whether the last request has completed a
node. Looking an output up begins a reading, unless it fetches the value of a node just completed: the
reading of that one has begun before. -/
structure Readings where
  count : Nat := 0
  fetches : Bool := false

def Readings.after (t : Readings) : EngineRequest → Readings
  | .act (.memoized _) => ⟨if t.fetches then t.count else t.count + 1, false⟩
  | .act (.completeEvaluation _) => ⟨t.count, true⟩
  | _ => ⟨t.count, false⟩

namespace Requests

def readings (requests : Requests) : Readings :=
  requests.foldl .after {}

/-- The nodes that have been computed, each as often as it has been. -/
def computed (requests : Requests) : List NodeId :=
  requests.filterMap (·.computes?)

/-- How many activations have begun. -/
def begun (requests : Requests) : Nat :=
  requests.countP (·.begins)

variable (requests : Requests) (r : EngineRequest)

theorem readings_snoc : readings (requests ++ [r]) = requests.readings.after r := by
  rw [readings, List.foldl_append]
  rfl

theorem computed_snoc : computed (requests ++ [r]) = requests.computed ++ r.computes?.toList := by
  rw [computed, List.filterMap_append, List.filterMap_cons]
  cases r.computes? <;> rfl

theorem begun_snoc : begun (requests ++ [r]) = requests.begun + r.begins.toNat := by
  rw [begun, List.countP_append, List.countP_singleton]
  cases r.begins <;> rfl

end Requests

/-- A request looks up outputs of pure nodes only, and computes pure nodes only. -/
def EngineRequest.ConcernsPure (g : Graph) : EngineRequest → Prop
  | .act (.memoized output) => g.isPure output.node = true
  | .evaluate n _ => g.isPure n = true
  | _ => True

theorem Requests.isPure_of_computed {g : Graph} {requests : Requests}
    (concern : ∀ r ∈ requests, r.ConcernsPure g) {n : NodeId} (member : n ∈ requests.computed) :
    g.isPure n = true := by
  obtain ⟨r, asked, computes⟩ := List.mem_filterMap.mp member
  cases r with
  | evaluate k depth =>
      cases computes
      exact concern _ asked
  | _ => cases computes

/-- A request that takes no part in a reading and begins no activation. -/
structure EngineRequest.Silent (r : EngineRequest) : Prop where
  readings : ∀ t : Readings, t.after r = ⟨t.count, false⟩
  computes : r.computes? = none
  begins : r.begins = false

theorem EngineRequest.Silent.concernsPure {r : EngineRequest} (h : r.Silent) (g : Graph) :
    r.ConcernsPure g := by
  cases r with
  | act a =>
      cases a with
      | memoized output => cases h.readings {}
      | _ => trivial
  | evaluate n depth => cases h.computes
  | _ => trivial

namespace Engine

variable {g : Graph} {s : Scope} {α β : Type}

theorem Ordinary.silent {r : EngineRequest} (h : Ordinary g s r) : r.Silent := by
  cases r with
  | act a => cases a <;> first | exact h.elim | exact ⟨fun _ => rfl, rfl, rfl⟩
  | evaluate | restart | pulse => exact h.elim
  | _ => exact ⟨fun _ => rfl, rfl, rfl⟩

/-! ## What is due after looking an output up -/

/-- What a program that reads has to ask for next. -/
inductive Due where
  | nothing
  /-- The memo has had a value, which counts as a hit. -/
  | hit
  /-- The memo has had no value, so the node has to be computed. -/
  | computation
  /-- The node has been completed, and the value can be fetched. -/
  | fetch

/-- How many readings have begun that neither count as hits yet nor have asked for a computation. -/
def Due.owed : Due → Nat
  | .hit | .computation => 1
  | .nothing | .fetch => 0

def Due.fetches : Due → Bool
  | .fetch => true
  | .nothing | .hit | .computation => false

/-- What a request needs, and what it leads to, in terms of what is due. -/
def tallying (g : Graph) (s : Scope) : (r : EngineRequest) → (r.Reply → Due → Prop) → Due → Prop
  | .act (.memoized output), next, due =>
    g.isPure output.node = true ∧
      ((due = .nothing ∧ (∀ v, next (some v) .hit) ∧ next none .computation) ∨
        (due = .fetch ∧ ∀ found, next found .nothing))
  | .act .countHit, next, due => due = .hit ∧ next () .nothing
  | .evaluate .., next, due => due = .computation ∧ next () .nothing
  | .act (.completeEvaluation _), next, due => due = .nothing ∧ next () .fetch
  | .act (.begin _ list), next, due =>
    due = .nothing ∧ list = g.config.recordActivations ∧ next () .nothing
  | .restart, _, due => due = .nothing
  | .pulse _, next, due => due = .nothing ∧ ∀ result, next result .nothing
  | r, next, due => due = .nothing ∧ Ordinary g s r ∧ ∀ reply, next reply .nothing

/-- A program counts what it reads and lists what it begins as it has to. -/
def Tallies (g : Graph) (s : Scope) (due : Due) (p : Engine α) : Prop :=
  p.wp (tallying g s) (fun _ due => due = .nothing) due

theorem tallying_mono {r : EngineRequest} {next next' : r.Reply → Due → Prop} {due : Due}
    (h : tallying g s r next due) (weaker : ∀ reply due, next reply due → next' reply due) :
    tallying g s r next' due := by
  cases r with
  | act a =>
      cases a with
      | memoized output =>
          obtain ⟨pure, ⟨none, hit, miss⟩ | ⟨fetch, later⟩⟩ := h
          · exact ⟨pure, .inl ⟨none, fun v => weaker _ _ (hit v), weaker _ _ miss⟩⟩
          · exact ⟨pure, .inr ⟨fetch, fun found => weaker _ _ (later found)⟩⟩
      | countHit | completeEvaluation resting => exact ⟨h.1, weaker _ _ h.2⟩
      | begin n list => exact ⟨h.1, h.2.1, weaker _ _ h.2.2⟩
      | _ => exact ⟨h.1, h.2.1, fun reply => weaker _ _ (h.2.2 reply)⟩
  | evaluate n depth => exact ⟨h.1, weaker _ _ h.2⟩
  | restart => exact h
  | pulse n => exact ⟨h.1, fun result => weaker _ _ (h.2 result)⟩
  | _ => exact ⟨h.1, h.2.1, fun reply => weaker _ _ (h.2.2 reply)⟩

theorem Tallies.andThen {p : Engine α} {f : α → Engine β} {due : Due} (h : Tallies g s due p)
    (later : ∀ a, Tallies g s .nothing (f a)) : Tallies g s due (p.andThen f) := by
  rw [Tallies, Program.wp_andThen]
  apply Program.wp_mono h tallying_mono
  rintro a _ rfl
  exact later a

theorem Ordinary.tallies {r : EngineRequest} (h : Ordinary g s r) {next : r.Reply → Engine α}
    (later : ∀ reply, Tallies g s .nothing (next reply)) : Tallies g s .nothing (.ask r next) := by
  cases r with
  | act a => cases a <;> first | exact h.elim | exact ⟨rfl, h, later⟩
  | evaluate | restart | pulse => exact h.elim
  | _ => exact ⟨rfl, h, later⟩

theorem tallies_of_member {n : NodeId} {f : Member → Engine α}
    (later : ∀ m, g.member? n = some m → Tallies g s .nothing (f m)) :
    Tallies g s .nothing ((member g n).andThen f) := by
  rw [member]
  cases found : g.member? n with
  | some m => exact later m found
  | none => exact ⟨rfl, trivial, fun reply => reply.elim⟩

/-- Reading an output of a pure node counts as a hit or asks for a computation, and not both. -/
theorem tallies_resolve (depth : Nat) (output : Port) : Tallies g s .nothing (resolve g depth output) := by
  apply tallies_of_member
  intro m member
  cases m.descriptor.outputs[output.index]? with
  | none => exact ⟨rfl, trivial, fun reply => reply.elim⟩
  | some o =>
      dsimp only
      by_cases pure : m.node.isPure = true
      · have isPure : g.isPure output.node = true := by simpa [Graph.isPure, member] using pure
        rw [if_pos pure]
        exact ⟨isPure, .inl ⟨rfl, fun v => ⟨rfl, rfl⟩, rfl, rfl, isPure, .inr ⟨rfl, fun found => rfl⟩⟩⟩
      · rw [if_neg pure]
        exact ⟨rfl, trivial, fun found => rfl⟩

theorem Composed.tallies {p : Engine α} (h : Composed g s p) : Tallies g s .nothing p := by
  induction h with
  | done a => rfl
  | ask ordinary _ ih => exact ordinary.tallies ih
  | read depth output _ ih => exact (tallies_resolve depth output).andThen ih
  | restart next => rfl
  | pulse n _ ih => exact ⟨rfl, fun result => ih _⟩

section

variable (conforms : g.Conforming)

include conforms

theorem tallies_admitted {m : Member} (member : g.member? s.node = some m) :
    Tallies g s .nothing (admitted g s m) := by
  have writes := conforms.writesDeclared member
  apply (composed_run member writes.guard).tallies.andThen
  intro passed
  split
  · exact ⟨rfl, rfl, (composed_run member writes.process).tallies⟩
  · rfl

theorem tallies_activation : Tallies g s .nothing (activation g s) := by
  apply tallies_of_member
  intro m member
  refine ⟨rfl, trivial, fun cancelled => ?_⟩
  cases cancelled with
  | true => rfl
  | false =>
      simp only [Program.done_andThen, Bool.false_eq_true, if_false]
      split
      · apply (composed_observeFrom 0 m.descriptor.inputs).tallies.andThen
        intro changed
        split
        · exact tallies_admitted conforms member
        · exact ⟨rfl, trivial, fun _ => rfl⟩
      · exact tallies_admitted conforms member

end

end Engine

end FlowGraph
