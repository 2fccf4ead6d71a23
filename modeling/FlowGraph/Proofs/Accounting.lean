import FlowGraph.Proofs.Counting
import FlowGraph.Proofs.Listing

/-!
# The counters of a pulse

When a node is computed, each of its outputs is memoised, once: by the node itself or when its computation
is completed. Each of them stays in the memo until it is evicted, and that is counted. So the outputs of the
nodes that a pulse has computed are in the memo, have been evicted, or are still to be memoised because
the node is being computed; and the readings of the pulse are its hits, the computations that it has asked
for, and the one reading that has just begun. Every request of a pulse keeps this up.
-/

namespace FlowGraph

/-! ## What is still to be memoised -/

namespace Table

variable {κ α : Type}

theorem size_filterKeys_le (t : Table κ α) (test : κ → Bool) : (t.filterKeys test).size ≤ t.size :=
  List.length_filter_le ..

theorem size_insertNew [DecidableEq κ] (t : Table κ α) (k : κ) (v : α) :
    (t.insertNew k v).size = t.size + (!t.contains k).toNat := by
  unfold insertNew
  split
  next has => simp [has]
  next lacks =>
    have absent : ∀ e ∈ t.entries, decide (e.1 ≠ k) = true := by
      intro e member
      refine decide_eq_true fun same => lacks ?_
      have found : (t.entries.find? fun e => e.1 = k).isSome :=
        List.find?_isSome.mpr ⟨e, member, decide_eq_true same⟩
      simpa [contains, get?] using found
    have kept := List.filter_eq_self.mpr absent
    simp only [insert, size, kept, List.length_cons]
    simp [lacks]

end Table

namespace Graph

variable {g : Graph} {memo : Table Port Value} {n : NodeId} {busy : List NodeId} {output : Port}

/-- How many outputs are memoised, or are not but belong to nodes that are being computed. -/
def expected (g : Graph) (memo : Table Port Value) (busy : List NodeId) : Nat :=
  memo.size + (busy.flatMap g.outputs).countP fun o => !memo.contains o

theorem nodup_outputs (g : Graph) (n : NodeId) : (g.outputs n).Nodup := by
  unfold outputs
  split
  · exact List.nodup_range.map fun i j same => congrArg Port.index same
  · exact List.nodup_nil

theorem nodup_flatMap_outputs (nodup : busy.Nodup) : (busy.flatMap g.outputs).Nodup := by
  refine List.nodup_flatMap.mpr ⟨fun n _ => g.nodup_outputs n, nodup.imp ?_⟩
  intro n k differ o own other
  exact differ ((node_of_mem_outputs own).symm.trans (node_of_mem_outputs other))

/-- Memoising one of some outputs leaves one less of them without a value, unless it has had one. -/
theorem countP_insertNew {outputs : List Port} (nodup : outputs.Nodup) (member : output ∈ outputs) (v : Value) :
    outputs.countP (fun o => !(memo.insertNew output v).contains o) + (!memo.contains output).toNat =
      outputs.countP fun o => !memo.contains o := by
  obtain ⟨before, after, rfl⟩ := List.append_of_mem member
  obtain ⟨_, rest, apart⟩ := List.nodup_append.mp nodup
  have first : output ∉ before := fun twice => apart output twice output (List.mem_cons_self ..) rfl
  have others {part : List Port} (absent : output ∉ part) :
      part.countP (fun o => !(memo.insertNew output v).contains o) =
        part.countP fun o => !memo.contains o := by
    apply List.countP_congr
    intro o inside
    have differs : o ≠ output := by
      rintro rfl
      exact absent inside
    rw [Table.contains_insertNew, decide_eq_false differs, Bool.or_false]
  have now : (memo.insertNew output v).contains output = true := by simp [Table.contains_insertNew]
  simp only [List.countP_append, List.countP_cons, others first, others (List.nodup_cons.mp rest).1, now]
  cases memo.contains output with
  | true => simp
  | false =>
      simp only [Bool.not_true, Bool.not_false, Bool.toNat_true, Bool.false_eq_true, if_false, if_true]
      omega

/-- Memoising an output of a node that is being computed changes nothing about what is expected. -/
theorem expected_insertNew (nodup : busy.Nodup) (computing : n ∈ busy) (member : output ∈ g.outputs n)
    (v : Value) : g.expected (memo.insertNew output v) busy = g.expected memo busy := by
  have among : output ∈ busy.flatMap g.outputs := List.mem_flatMap.mpr ⟨n, computing, member⟩
  have missing : (busy.flatMap g.outputs).countP (fun o => !(memo.insertNew output v).contains o) +
      (!memo.contains output).toNat = (busy.flatMap g.outputs).countP fun o => !memo.contains o :=
    countP_insertNew (nodup_flatMap_outputs nodup) among v
  have size := memo.size_insertNew output v
  unfold expected
  omega

theorem expected_foldl {resting : List (Port × Value)} (nodup : busy.Nodup) (computing : n ∈ busy)
    (own : ∀ e ∈ resting, e.1 ∈ g.outputs n) (memo : Table Port Value) :
    g.expected (resting.foldl (fun memo e => memo.insertNew e.1 e.2) memo) busy = g.expected memo busy := by
  induction resting generalizing memo with
  | nil => rfl
  | cons e rest ih =>
      obtain ⟨first, later⟩ := List.forall_mem_cons.mp own
      exact (ih later _).trans (expected_insertNew nodup computing first e.2)

/-- When a node has been completed, nothing is expected of it any more. -/
theorem expected_completeEvaluation {p : Pulse} {m : Member} (member : g.member? n = some m)
    (nodup : (n :: busy).Nodup) :
    g.expected (p.completeEvaluation (Engine.restingOutputs n m)).memo busy =
      g.expected p.memo (n :: busy) := by
  have ports := map_restingOutputs member
  have own : ∀ e ∈ Engine.restingOutputs n m, e.1 ∈ g.outputs n := fun e resting =>
    ports ▸ List.mem_map_of_mem resting
  have done : (g.outputs n).countP
      (fun o => !(p.completeEvaluation (Engine.restingOutputs n m)).memo.contains o) = 0 := by
    rw [List.countP_eq_zero]
    intro o declared
    rw [p.contains_completeEvaluation, ports, decide_eq_true declared, Bool.or_true]
    exact Bool.false_ne_true
  -- As long as the node counts as being computed, memoising its outputs changes nothing. When they all are
  -- memoised, it makes no difference whether it still counts.
  calc g.expected (p.completeEvaluation (Engine.restingOutputs n m)).memo busy
      = g.expected (p.completeEvaluation (Engine.restingOutputs n m)).memo (n :: busy) := by
        simp only [expected, List.flatMap_cons, List.countP_append, done, Nat.zero_add]
    _ = g.expected p.memo (n :: busy) := by
        rw [p.completeEvaluation_eq]
        exact expected_foldl nodup (List.mem_cons_self ..) own p.memo

end Graph

/-! ## The counters of one pulse -/

open Engine (Due Lookup)

/-- What the counters of a pulse say about what the pulse has asked for, while something is due in it and
some nodes are being computed. -/
structure Counted (g : Graph) (requests : Requests) (p : Pulse) (due : Due) (busy : List NodeId) : Prop where
  readings : requests.readings = ⟨p.memoHits + requests.computed.length + due.owed, due.fetches⟩
  computed : requests.computed.length = p.evaluations + busy.length
  pure : ∀ r ∈ requests, r.ConcernsPure g
  nodup : busy.Nodup
  memo : g.expected p.memo busy + p.invalidations = (requests.computed.flatMap g.outputs).length
  begun : p.activationCount = requests.begun
  listed : p.activations.size = if g.config.recordActivations then p.activationCount else 0

namespace Counted

variable {g : Graph} {requests : Requests} {p : Pulse} {due : Due} {n : NodeId} {busy : List NodeId}

/-- A pulse in which nothing has happened yet. -/
theorem new (w : World) (root : NodeId) (token : TokenId) :
    Counted g [] (w.beginPulse root token).2 .nothing [] where
  readings := rfl
  computed := rfl
  pure := nofun
  nodup := List.nodup_nil
  memo := rfl
  begun := rfl
  listed := by split <;> rfl

/-- A request that neither computes a node nor begins an activation, with what it may change: the hits, as far
as readings are due for them, and the memo, as far as the evicted values are counted. -/
theorem snoc (h : Counted g requests p due busy) {r : EngineRequest} {next : Due}
    {memo published : Table Port Value} {memoHits invalidations suppressed : Nat}
    (pure : r.ConcernsPure g) (computes : r.computes? = none) (begins : r.begins = false)
    (readings : Readings.after ⟨p.memoHits + requests.computed.length + due.owed, due.fetches⟩ r =
      ⟨memoHits + requests.computed.length + next.owed, next.fetches⟩)
    (balance : g.expected memo busy + invalidations = g.expected p.memo busy + p.invalidations) :
    Counted g (requests ++ [r]) { p with memo, published, memoHits, invalidations, suppressed } next busy := by
  have computed : Requests.computed (requests ++ [r]) = requests.computed := by
    rw [Requests.computed_snoc, computes, Option.toList_none, List.append_nil]
  constructor
  case readings => rw [Requests.readings_snoc, h.readings, readings, computed]
  case computed => rw [computed, h.computed]
  case pure => exact List.forall_mem_append.mpr ⟨h.pure, List.forall_mem_singleton.mpr pure⟩
  case nodup => exact h.nodup
  case memo => rw [computed, ← h.memo, balance]
  case begun => rw [Requests.begun_snoc, begins, ← h.begun]; rfl
  case listed => exact h.listed

theorem silent (h : Counted g requests p .nothing busy) {r : EngineRequest} (silent : r.Silent)
    {memo published : Table Port Value} {invalidations suppressed : Nat}
    (balance : g.expected memo busy + invalidations = g.expected p.memo busy + p.invalidations) :
    Counted g (requests ++ [r]) { p with memo, published, invalidations, suppressed } .nothing busy :=
  h.snoc (silent.concernsPure g) silent.computes silent.begins (silent.readings _) balance

theorem unchanged (h : Counted g requests p .nothing busy) {r : EngineRequest} (silent : r.Silent) :
    Counted g (requests ++ [r]) p .nothing busy :=
  h.silent silent rfl

/-- Looking an output up begins a reading. -/
theorem lookUp (h : Counted g requests p .nothing busy) {output : Port}
    (pure : g.isPure output.node = true) {next : Due} (owes : next.owed = 1) (stays : next.fetches = false) :
    Counted g (requests ++ [.act (.memoized output)]) p next busy :=
  h.snoc pure rfl rfl (by rw [owes, stays]; rfl) rfl

/-- The reading of a node that has been completed has begun before. -/
theorem fetch (h : Counted g requests p .fetch busy) {output : Port}
    (pure : g.isPure output.node = true) :
    Counted g (requests ++ [.act (.memoized output)]) p .nothing busy :=
  h.snoc pure rfl rfl rfl rfl

theorem countHit (h : Counted g requests p .hit busy) :
    Counted g (requests ++ [.act .countHit]) { p with memoHits := p.memoHits + 1 } .nothing busy := by
  refine h.snoc trivial rfl rfl ?_ rfl
  simp only [Readings.after, Due.owed, Due.fetches, Readings.mk.injEq, and_true]
  omega

/-- A node that is being computed memoises an output of its own. -/
theorem memoize (h : Counted g requests p .nothing busy) (computing : n ∈ busy) {output : Port}
    (own : output ∈ g.outputs n) (v : Value) :
    Counted g (requests ++ [.act (.memoize output v)]) (p.memoize output v) .nothing busy := by
  refine h.silent ⟨fun _ => rfl, rfl, rfl⟩ ?_
  rw [Graph.expected_insertNew h.nodup computing own]

/-- Every value that publishing evicts is counted. -/
theorem publish (h : Counted g requests p .nothing []) (output : Port) (v : Value) (dependents : List NodeId) :
    Counted g (requests ++ [.act (.publish output v dependents)]) (p.publish output v dependents)
      .nothing [] := by
  refine h.silent ⟨fun _ => rfl, rfl, rfl⟩ ?_
  have evicts := p.memo.size_filterKeys_le fun port => !dependents.contains port.node
  simp only [Graph.expected, List.flatMap_nil, List.countP_nil]
  omega

theorem begin (h : Counted g requests p .nothing busy) (k : NodeId) :
    Counted g (requests ++ [.act (.begin k g.config.recordActivations)])
      (p.begin k g.config.recordActivations) .nothing busy := by
  have computed : Requests.computed (requests ++ [.act (.begin k g.config.recordActivations)]) =
      requests.computed := by
    rw [Requests.computed_snoc]
    exact List.append_nil _
  constructor
  case readings =>
    rw [Requests.readings_snoc, h.readings, computed]
    rfl
  case computed => rw [computed]; exact h.computed
  case pure => exact List.forall_mem_append.mpr ⟨h.pure, List.forall_mem_singleton.mpr trivial⟩
  case nodup => exact h.nodup
  case memo => rw [computed]; exact h.memo
  case begun =>
    rw [Requests.begun_snoc, ← h.begun]
    rfl
  case listed =>
    have listed := h.listed
    simp only [Pulse.begin]
    split <;> simp_all

/-- The computation of a node none of whose outputs is memoised. -/
theorem evaluate (h : Counted g requests p .computation busy) (pure : g.isPure n = true) (fresh : n ∉ busy)
    (none : ∀ o ∈ g.outputs n, p.memo.contains o = false) (depth : Nat) :
    Counted g (requests ++ [.evaluate n depth]) p .nothing (n :: busy) := by
  have computed : Requests.computed (requests ++ [.evaluate n depth]) = requests.computed ++ [n] :=
    Requests.computed_snoc ..
  constructor
  case readings =>
    rw [Requests.readings_snoc, h.readings, computed, List.length_append]
    rfl
  case computed =>
    rw [computed, List.length_append, h.computed]
    simp only [List.length_cons, List.length_nil]
    omega
  case pure => exact List.forall_mem_append.mpr ⟨h.pure, List.forall_mem_singleton.mpr pure⟩
  case nodup => exact List.nodup_cons.mpr ⟨fresh, h.nodup⟩
  case memo =>
    have memo := h.memo
    have all : (g.outputs n).countP (fun o => !p.memo.contains o) = (g.outputs n).length := by
      rw [List.countP_eq_length]
      intro o declared
      rw [none o declared, Bool.not_false]
    simp only [computed, Graph.expected, List.flatMap_append, List.flatMap_cons, List.flatMap_nil,
      List.countP_append, List.length_append, List.append_nil] at memo ⊢
    omega
  case begun =>
    rw [Requests.begun_snoc, ← h.begun]
    rfl
  case listed => exact h.listed

/-- The completion of a node that has been computed. -/
theorem complete (h : Counted g requests p .nothing (n :: busy)) {m : Member}
    (member : g.member? n = some m) :
    Counted g (requests ++ [.act (.completeEvaluation (Engine.restingOutputs n m))])
      (p.completeEvaluation (Engine.restingOutputs n m)) .fetch busy := by
  have computed : Requests.computed
      (requests ++ [.act (.completeEvaluation (Engine.restingOutputs n m))]) = requests.computed := by
    rw [Requests.computed_snoc]
    exact List.append_nil _
  have expected := Graph.expected_completeEvaluation (p := p) member h.nodup
  rw [p.completeEvaluation_eq] at expected ⊢
  constructor
  case readings =>
    rw [Requests.readings_snoc, h.readings, computed]
    rfl
  case computed =>
    rw [computed, h.computed, List.length_cons]
    show _ = p.evaluations + 1 + busy.length
    omega
  case pure => exact List.forall_mem_append.mpr ⟨h.pure, List.forall_mem_singleton.mpr trivial⟩
  case nodup => exact (List.nodup_cons.mp h.nodup).2
  case memo =>
    rw [computed, ← h.memo]
    exact congrArg (· + p.invalidations) expected
  case begun =>
    rw [Requests.begun_snoc, ← h.begun]
    rfl
  case listed => exact h.listed

end Counted

end FlowGraph
