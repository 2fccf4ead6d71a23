import FlowGraph.Demo.Graph
import FlowGraph.Proofs.Performing

/-!
# What the demonstration does

The demonstration always gets its graph. In the pulse from `start`, flow goes on to the loop, and the loop lets
it into the counter, which goes on to the log, once for each round. The count is read once, when the loop is
entered. A round adds the next number to the log and two activations to the report, and changes nothing else
that is reported; so what a whole pulse does follows by counting rounds. No connection lies deeper than three,
but the log fires its output too, and this takes a limit of four.
-/

namespace FlowGraph

/-- Publishing something that nothing derives from invalidates nothing. -/
theorem Pulse.invalidations_publish_nil (p : Pulse) (output : Port) (v : Value) :
    (p.publish output v []).invalidations = p.invalidations := by
  simp [publish, Table.filterKeys, Table.size]

namespace Demo

/-- The graph of the demonstration. -/
def network (config : Config) (count interval : Int32) : Graph where
  name := "demo"
  config
  members := [⟨"start", CatalogueNode.onTrigger.node⟩, ⟨"count", (CatalogueNode.constant (.int count)).node⟩,
    ⟨"loop", CatalogueNode.forLoop.node⟩, ⟨"counter", CatalogueNode.counter.node⟩,
    ⟨"log", (CatalogueNode.log .int (.named sinkName)).node⟩,
    ⟨"interval", (CatalogueNode.constant (.int interval)).node⟩,
    ⟨"ticker", CatalogueNode.fireOnInterval.node⟩, ⟨"ticks", CatalogueNode.counter.node⟩]
  valueEdges := [⟨⟨⟨1⟩, 0⟩, ⟨⟨2⟩, 0⟩⟩, ⟨⟨⟨3⟩, 0⟩, ⟨⟨4⟩, 0⟩⟩, ⟨⟨⟨5⟩, 0⟩, ⟨⟨6⟩, 0⟩⟩]
  flowEdges := [⟨⟨⟨0⟩, 0⟩, ⟨2⟩⟩, ⟨⟨⟨2⟩, 0⟩, ⟨3⟩⟩, ⟨⟨⟨3⟩, 0⟩, ⟨4⟩⟩, ⟨⟨⟨6⟩, 0⟩, ⟨7⟩⟩]

variable (config : Config) (count interval : Int32)

theorem graph_eq : graph config count interval = .ok (network config count interval) := by
  have trigger : Registry.standard.create "On Trigger" none = .ok CatalogueNode.onTrigger.node := rfl
  have loop : Registry.standard.create "For" none = .ok CatalogueNode.forLoop.node := rfl
  have counter : Registry.standard.create "Counter Increment" none = .ok CatalogueNode.counter.node := rfl
  have ticker : Registry.standard.create "Fire On Interval" none = .ok CatalogueNode.fireOnInterval.node := rfl
  simp only [graph, blueprint, Blueprint.addRegistered, trigger, loop, counter, ticker]
  cbv

theorem network_fromCatalogue : (network config count interval).FromCatalogue where
  built := ⟨"demo", config, [.add "start" CatalogueNode.onTrigger.node,
    .add "count" (CatalogueNode.constant (.int count)).node, .add "loop" CatalogueNode.forLoop.node,
    .add "counter" CatalogueNode.counter.node, .add "log" (CatalogueNode.log .int (.named sinkName)).node,
    .add "interval" (CatalogueNode.constant (.int interval)).node,
    .add "ticker" CatalogueNode.fireOnInterval.node, .add "ticks" CatalogueNode.counter.node,
    .connectValue ⟨"count", "Value", "loop", "Count"⟩, .connectValue ⟨"counter", "Count", "log", "Value"⟩,
    .connectValue ⟨"interval", "Value", "ticker", "Interval"⟩, .connectFlow ⟨"start", "Next", "loop"⟩,
    .connectFlow ⟨"loop", "Loop", "counter"⟩, .connectFlow ⟨"counter", "Next", "log"⟩,
    .connectFlow ⟨"ticker", "On Fire", "ticks"⟩],
    by cbv⟩
  nodes m member := by
    simp only [network, List.mem_cons, List.not_mem_nil, or_false] at member
    rcases member with rfl | rfl | rfl | rfl | rfl | rfl | rfl | rfl <;> exact ⟨_, rfl⟩

/-! ## A round -/

section

variable {config count interval} {w : World} {p : Pulse}

open Engine

/-- The log takes note of what the counter has published. -/
theorem performs_log (enough : 4 ≤ config.maxFlowDepth) {c : Int32}
    (published : p.published.get? ⟨⟨3⟩, 0⟩ = some (.int c)) (live : w.isCancelled p.token = false) :
    Performs (network config count interval) w p (activation (network config count interval) ⟨⟨4⟩, 3⟩) ()
      (w.push (.named sinkName) (.int c)) (p.begin ⟨4⟩ config.recordActivations) := by
  have member : (network config count interval).member? ⟨4⟩ =
    some ⟨"log", (CatalogueNode.log .int (.named sinkName)).node⟩ := rfl
  have isOpen := (network_fromCatalogue config count interval).isOpen member rfl
  refine performs_activation member isOpen live ?_
  have published : (p.begin ⟨4⟩ config.recordActivations).published.get? ⟨⟨3⟩, 0⟩ = some (.int c) := published
  have value := performs_resolve_published (g := network config count interval) (w := w) rfl rfl rfl published 3
  refine Performs.ask (r := .input 0 .int) (performs_input_connected member rfl rfl value rfl) ?_
  refine Performs.ask (r := .push (.named sinkName) (.int c)) (performs_act rfl) ?_
  refine Performs.ask (r := .fire 0) ?_ (performs_done ())
  exact performs_fire member rfl live enough (performs_done ())

/-- No pure node reads a number that is published in a round. -/
theorem dependents_counter : (network config count interval).dependents ⟨⟨3⟩, 0⟩ = [] := by
  cbv

theorem dependents_loop : (network config count interval).dependents ⟨⟨2⟩, 0⟩ = [] := by
  cbv

/-- The counter counts, and the log takes note of the count. -/
theorem performs_counter (enough : 4 ≤ config.maxFlowDepth) (live : w.isCancelled p.token = false) {c : Int32}
    (next : (w.store ⟨3⟩ .int).read + 1 = c) :
    Performs (network config count interval) w p (activation (network config count interval) ⟨⟨3⟩, 2⟩) ()
      ((w.update ⟨3⟩ .int (· + (1 : Int32))).push (.named sinkName) (.int c))
      (((p.begin ⟨3⟩ config.recordActivations).publish ⟨⟨3⟩, 0⟩ (.int c) []).begin ⟨4⟩
        config.recordActivations) := by
  have member : (network config count interval).member? ⟨3⟩ =
    some ⟨"counter", CatalogueNode.counter.node⟩ := rfl
  have isOpen := (network_fromCatalogue config count interval).isOpen member rfl
  have counted : ((w.update ⟨3⟩ .int (· + (1 : Int32))).store ⟨3⟩ .int).read = c :=
    (w.read_update ..).trans next
  have current : ((p.begin ⟨3⟩ config.recordActivations).publish ⟨⟨3⟩, 0⟩ (.int c) []).published.get?
      ⟨⟨3⟩, 0⟩ = some (.int c) := Table.get?_insert_self ..
  refine performs_activation member isOpen live ?_
  refine Performs.ask (r := .input 0 .int) (performs_input_unconnected member rfl rfl rfl) ?_
  refine Performs.ask (r := .update .int (· + (1 : Int32))) (performs_act (by rw [Action.perform, counted])) ?_
  refine Performs.ask (r := .publish 0 (.int c)) (performs_publish rfl 0 _) ?_
  rw [dependents_counter]
  refine Performs.ask (r := .fire 0) ?_ (performs_done ())
  refine performs_fire member rfl live (Nat.le_of_succ_le enough) ?_
  exact performs_activateAll_cons live (performs_log enough current live) (performs_done ())

end

/-! ## All rounds -/

/-- What a pulse from `start` has done after some rounds of the loop. -/
structure Rounds (config : Config) (n : Nat) (w : World) (p : Pulse) : Prop where
  live : w.isCancelled p.token = false
  counted : (w.store ⟨3⟩ .int).read = Int32.ofNat n
  logged : (w.sink (.named sinkName)).toList = (List.range n).map fun i => .int (.ofNat (i + 1))
  activations : p.activations.toList =
    if config.recordActivations then ⟨0⟩ :: ⟨2⟩ :: (List.replicate n [⟨3⟩, ⟨4⟩]).flatten else []
  activationCount : p.activationCount = 2 + 2 * n
  evaluations : p.evaluations = 1
  memoHits : p.memoHits = 0
  invalidations : p.invalidations = 0
  suppressed : p.suppressed = 0

namespace Rounds

variable {config count interval} {n : Nat} {w : World} {p : Pulse}

theorem publish (h : Rounds config n w p) (output : Port) (v : Value) :
    Rounds config n w (p.publish output v []) :=
  { h with invalidations := (p.invalidations_publish_nil output v).trans h.invalidations }

/-- One more round. -/
theorem next (h : Rounds config n w p) :
    Rounds config (n + 1)
      ((w.update ⟨3⟩ .int (· + (1 : Int32))).push (.named sinkName) (.int (.ofNat (n + 1))))
      (((p.begin ⟨3⟩ config.recordActivations).publish ⟨⟨3⟩, 0⟩ (.int (.ofNat (n + 1))) []).begin ⟨4⟩
        config.recordActivations) where
  live := h.live
  counted := by
    refine (w.read_update ⟨3⟩ .int (· + (1 : Int32))).trans ?_
    rw [h.counted]
    exact (Int32.ofNat_add n 1).symm
  logged := by
    have before : ((w.sinks.get? (.named sinkName)).getD #[]).toList =
      (List.range n).map fun i => .int (.ofNat (i + 1)) := h.logged
    simp [World.push, World.sink, World.update, World.setStore, before, List.range_succ]
  activations := by
    have before := h.activations
    cases listed : config.recordActivations with
    | false => simpa [Pulse.begin, Pulse.publish, listed] using before
    | true =>
        rw [listed, if_pos rfl] at before
        simp [Pulse.begin, Pulse.publish, before, List.replicate_succ']
  activationCount := by
    have before := h.activationCount
    show p.activationCount + 1 + 1 = 2 + 2 * (n + 1)
    omega
  evaluations := h.evaluations
  memoHits := h.memoHits
  invalidations := by
    have before := h.invalidations
    rwa [← p.invalidations_publish_nil ⟨⟨3⟩, 0⟩ (.int (.ofNat (n + 1)))] at before
  suppressed := h.suppressed

end Rounds

section

variable {config} {w : World} {p : Pulse}

open Engine

/-- Firing the loop makes a round. -/
theorem Rounds.fires (enough : 4 ≤ config.maxFlowDepth) {n : Nat} (h : Rounds config n w p) :
    ∃ w' p', Performs (network config count interval) w p
      (answer (network config count interval) ⟨⟨2⟩, 1⟩ (.fire 0)) () w' p' ∧ Rounds config (n + 1) w' p' := by
  have next : (w.store ⟨3⟩ .int).read + 1 = Int32.ofNat (n + 1) := by
    rw [h.counted]
    exact (Int32.ofNat_add n 1).symm
  have shallow : 2 ≤ config.maxFlowDepth := by omega
  refine ⟨_, _, performs_fire (m := ⟨"loop", CatalogueNode.forLoop.node⟩) rfl rfl h.live shallow ?_, h.next⟩
  exact performs_activateAll_cons h.live (performs_counter enough h.live next) (performs_done ())

/-- The loop makes its rounds one after the other. -/
theorem Rounds.iterates (enough : 4 ≤ config.maxFlowDepth) (remaining : Nat) (index : Int32) {n : Nat}
    (h : Rounds config n w p) :
    ∃ w' p', Performs (network config count interval) w p
        (Engine.run (network config count interval) ⟨⟨2⟩, 1⟩ (CatalogueNode.iterate remaining index)) () w' p' ∧
      Rounds config (n + remaining) w' p' := by
  induction remaining generalizing n index w p with
  | zero =>
      have shallow : 2 ≤ config.maxFlowDepth := by omega
      refine ⟨w, p, Performs.ask (r := .isCancelled) (performs_isCancelled h.live) ?_, h⟩
      refine Performs.ask (r := .fire 1) ?_ (performs_done ())
      exact performs_fire (m := ⟨"loop", CatalogueNode.forLoop.node⟩) rfl rfl h.live shallow (performs_done ())
  | succ remaining ih =>
      have published := h.publish ⟨⟨2⟩, 0⟩ (.int index)
      obtain ⟨w₁, p₁, fires, round⟩ := published.fires count interval enough
      obtain ⟨w', p', later, rounds⟩ := ih (index + 1) round
      rw [Nat.add_right_comm] at rounds
      refine ⟨w', p', Performs.ask (r := .isCancelled) (performs_isCancelled h.live) ?_, rounds⟩
      refine Performs.ask (r := .publish 0 (.int index)) (performs_publish rfl 0 _) ?_
      rw [dependents_loop]
      exact Performs.ask (r := .fire 0) fires later

/-! ## The whole pulse -/

/-- Reading the count computes it. -/
theorem performs_count (unknown : p.memo.get? ⟨⟨1⟩, 0⟩ = none) :
    Performs (network config count interval) w p
      (answer (network config count interval) ⟨⟨2⟩, 1⟩ (.input 0 .int)) count w
      ((p.memoize ⟨⟨1⟩, 0⟩ (.int count)).completeEvaluation [(⟨⟨1⟩, 0⟩, .zero .int)]) := by
  have evaluates : Performs (network config count interval) w p
      (evaluation (network config count interval) ⟨⟨1⟩, 1⟩) () w (p.memoize ⟨⟨1⟩, 0⟩ (.int count)) := by
    refine performs_evaluation (m := ⟨"count", (CatalogueNode.constant (.int count)).node⟩) rfl rfl ?_
    exact Performs.ask (r := .publish 0 (.int count)) (performs_memoize rfl 0 _) (performs_done ())
  have computed : ((p.memoize ⟨⟨1⟩, 0⟩ (.int count)).completeEvaluation
      [(⟨⟨1⟩, 0⟩, .zero .int)]).memo.get? ⟨⟨1⟩, 0⟩ = some (.int count) := by
    simp [Pulse.completeEvaluation, Pulse.memoize, Table.get?_insertNew, unknown]
  have resolves := performs_resolve_computed (m := ⟨"count", (CatalogueNode.constant (.int count)).node⟩) rfl
    rfl rfl unknown evaluates computed
  exact performs_input_connected (m := ⟨"loop", CatalogueNode.forLoop.node⟩) rfl rfl rfl resolves rfl

/-- Flow that is let into the loop makes as many rounds as the count says. -/
theorem performs_loop (enough : 4 ≤ config.maxFlowDepth) (live : w.isCancelled p.token = false)
    (unknown : p.memo.get? ⟨⟨1⟩, 0⟩ = none)
    (begun : Rounds config 0 w (((p.begin ⟨2⟩ config.recordActivations).memoize ⟨⟨1⟩, 0⟩
      (.int count)).completeEvaluation [(⟨⟨1⟩, 0⟩, .zero .int)])) :
    ∃ w' p', Performs (network config count interval) w p
        (activation (network config count interval) ⟨⟨2⟩, 1⟩) () w' p' ∧
      Rounds config count.toInt.toNat w' p' := by
  have member : (network config count interval).member? ⟨2⟩ =
    some ⟨"loop", CatalogueNode.forLoop.node⟩ := rfl
  have isOpen := (network_fromCatalogue config count interval).isOpen member rfl
  obtain ⟨w', p', iterates, rounds⟩ := begun.iterates count interval enough
    count.toInt.toNat 0
  rw [Nat.zero_add] at rounds
  refine ⟨w', p', performs_activation member isOpen live ?_, rounds⟩
  exact Performs.ask (r := .input 0 .int) (performs_count count interval unknown) iterates

/-- Before the first round nothing has been counted or logged. -/
theorem Rounds.none {id : PulseId} {root : NodeId} {token : TokenId} {startedAt : Nat}
    (live : w.isCancelled token = false) (kept : w.kept = ∅) (sinks : w.sinks = ∅) :
    Rounds config 0 w ((((({ id, root, token, startedAt } : Pulse).begin ⟨0⟩ config.recordActivations).begin
      ⟨2⟩ config.recordActivations).memoize ⟨⟨1⟩, 0⟩ (.int count)).completeEvaluation
        [(⟨⟨1⟩, 0⟩, .zero .int)]) where
  live := live
  counted := by
    rw [World.store, kept]
    rfl
  logged := by
    rw [World.sink, sinks]
    rfl
  activations := by
    cases listed : config.recordActivations <;> rfl
  activationCount := rfl
  evaluations := rfl
  memoHits := rfl
  invalidations := rfl
  suppressed := rfl

/-- A pulse from `start` makes all rounds. -/
theorem performs_start (enough : 4 ≤ config.maxFlowDepth) (id : PulseId) (root : NodeId) {token : TokenId}
    (startedAt : Nat) (live : w.isCancelled token = false) (kept : w.kept = ∅) (sinks : w.sinks = ∅) :
    ∃ w' p', Performs (network config count interval) w { id, root, token, startedAt }
        (activation (network config count interval) ⟨⟨0⟩, 0⟩) () w' p' ∧
      Rounds config count.toInt.toNat w' p' := by
  have member : (network config count interval).member? ⟨0⟩ =
    some ⟨"start", CatalogueNode.onTrigger.node⟩ := rfl
  have shallow : 1 ≤ config.maxFlowDepth := by omega
  obtain ⟨w', p', loops, rounds⟩ := performs_loop count interval enough live rfl
    (Rounds.none count live kept sinks)
  refine ⟨w', p', performs_activation member ⟨rfl, rfl, rfl⟩ live ?_, rounds⟩
  refine Performs.ask (r := .fire 0) ?_ (performs_done ())
  refine performs_fire member rfl live shallow ?_
  exact performs_activateAll_cons live loops (performs_done ())

end

/-- What a pulse from `start` leads to, for a number of rounds. -/
structure Counted (g : Graph) (rounds : Nat) (s : Session) (report : Report) : Prop where
  logged : ∃ entries : List Int32, (s.world.sink (.named sinkName)).toList = entries.map .int ∧
    entries.map Int32.toInt = (List.range rounds).map fun i => Int.ofNat (i + 1)
  counter : ∃ c : Int32, s.counter? "counter" = some c ∧ c.toInt = rounds
  activations : report.activations.map (fun n => (g.member? n).map (·.name)) =
    if g.config.recordActivations then
      (["start", "loop"] ++ (List.replicate rounds ["counter", "log"]).flatten).map some
    else []
  activationCount : report.activationCount = 2 + 2 * rounds
  evaluations : report.evaluations = 1
  memoHits : report.memoHits = 0
  invalidations : report.invalidations = 0
  suppressed : report.suppressed = 0
  cancelled : report.cancelled = false

variable {config count interval} in
/-- A pulse that ends after some rounds has led to what these rounds have done. -/
theorem Rounds.counted_report {n : Nat} {w : World} {p : Pulse} (h : Rounds config n w p) (small : n < 2 ^ 31)
    {s : Session} (graph : s.graph = network config count interval) (kept : s.world.kept = w.kept)
    (sinks : s.world.sinks = w.sinks) : Counted (network config count interval) n s (p.report w) where
  logged := by
    refine ⟨(List.range n).map fun i => .ofNat (i + 1), ?_, ?_⟩
    · rw [World.sink, sinks, List.map_map]
      exact h.logged
    · rw [List.map_map]
      refine List.map_congr_left fun i within => ?_
      have within := List.mem_range.mp within
      exact Int32.toInt_ofNat_of_lt (by omega)
  counter := by
    have counter : s.facet? "counter" = some (⟨3⟩, .counter) := by
      rw [Session.facet?, graph]
      rfl
    refine ⟨.ofNat n, ?_, Int32.toInt_ofNat_of_lt small⟩
    rw [Session.counter?, counter]
    dsimp only
    rw [World.store, kept]
    exact congrArg some h.counted
  activations := by
    have listed : (p.report w).activations = _ := h.activations
    rw [listed, apply_ite (List.map _)]
    refine ite_congr rfl (fun _ => ?_) fun _ => rfl
    rw [List.map_cons, List.map_cons, List.map_append, List.map_flatten, List.map_flatten, List.map_replicate,
      List.map_replicate]
    rfl
  activationCount := h.activationCount
  evaluations := h.evaluations
  memoHits := h.memoHits
  invalidations := h.invalidations
  suppressed := h.suppressed
  cancelled := h.live

/-- Whatever the count and the interval are, and whatever is configured if flow may go four connections deep,
the demonstration gets its graph, and the pulse from `start` comes to its end and has counted and logged its
rounds. There are as many as the count says, and none if it is negative. -/
theorem start_counts (config : Config) (enough : 4 ≤ config.maxFlowDepth) (count interval : Int32) (now : Nat) :
    ∃ g, graph config count interval = .ok g ∧ g.config = config ∧ ∃ steps s report,
      (∀ budget, steps ≤ budget →
        trigger budget { graph := g, world := { now } } "start" = .answer (s, .ok report)) ∧
      Counted g (max count.toInt 0).toNat s report := by
  have triggerable : (network config count interval).root ⟨0⟩ =
    .ok ⟨"start", CatalogueNode.onTrigger.node⟩ := rfl
  have live : ((({ now } : World).addToken {}).1.beginPulse ⟨0⟩ ⟨0⟩).1.isCancelled ⟨0⟩ = false := rfl
  obtain ⟨w, p, performs, rounds⟩ := performs_start count interval enough ⟨1⟩ ⟨0⟩ now live rfl rfl
  obtain ⟨steps, triggers⟩ := Session.triggerWith_of_performs
    (s := ({ graph := network config count interval, world := { now } } : Session).addToken {} |>.1)
    (network_fromCatalogue config count interval) triggerable performs
  have notes := w.notes_giveUp ⟨0⟩
  have small : (max count.toInt 0).toNat < 2 ^ 31 := by
    have below := count.toInt_lt
    omega
  have same : count.toInt.toNat = (max count.toInt 0).toNat := by omega
  rw [same] at rounds
  exact ⟨_, graph_eq config count interval, rfl, steps, _, _, triggers,
    rounds.counted_report small rfl notes.state.kept.symm notes.state.sinks.symm⟩

/-- A demonstration of three rounds that flow just reaches into, without a list of activations. -/
theorem start_counts_three :
    4 ≤ ({ maxFlowDepth := 4, recordActivations := false } : Config).maxFlowDepth ∧
    ∃ g, graph { maxFlowDepth := 4, recordActivations := false } 3 50 = .ok g ∧ ∃ steps s report,
      (∀ budget, steps ≤ budget →
        trigger budget { graph := g, world := { now := 7 } } "start" = .answer (s, .ok report)) ∧
      Counted g 3 s report := by
  obtain ⟨g, builds, _, counts⟩ := start_counts { maxFlowDepth := 4, recordActivations := false }
    (Nat.le_refl 4) 3 50 7
  exact ⟨Nat.le_refl 4, g, builds, counts⟩

end Demo

end FlowGraph
