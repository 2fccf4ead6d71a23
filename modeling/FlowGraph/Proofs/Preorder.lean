import FlowGraph.Proofs.Unfolding

/-!
# Activations in preorder

What a pulse lists are the nodes of the tree that its root unfolds, each before those below it. The tree is
determined by what the nodes fire: below a node stand all targets of each output that it has fired, in the
order of the connections. And a node fires no more when it has fired an output that is not a loop's.
-/

namespace FlowGraph

/-- A request that neither fires nor starts over. -/
def NodeRequest.Rests (r : NodeRequest) : Prop :=
  r ≠ .again ∧ ∀ flow, r ≠ .fire flow

/-- A program fires loops until it fires something else, and nothing after that. -/
inductive NodeProgram.LoopsFirst (flows : List Flow) : NodeProgram Unit → Prop where
  | done : LoopsFirst flows (.done ())
  | loop {flow f} {next : Unit → NodeProgram Unit} (declared : flows[flow]? = some f)
      (loop : f.isLoop = true) (rest : LoopsFirst flows (next ())) :
      LoopsFirst flows (.ask (.fire flow) next)
  | last {flow} {next : Unit → NodeProgram Unit} (rests : (next ()).Asks NodeRequest.Rests) :
      LoopsFirst flows (.ask (.fire flow) next)
  | other {r} {next : r.Reply → NodeProgram Unit} (fires : ∀ flow, r ≠ .fire flow)
      (rest : ∀ reply, LoopsFirst flows (next reply)) : LoopsFirst flows (.ask r next)

namespace CatalogueNode

open NodeProgram (LoopsFirst)

theorem loopsFirst_iterate (remaining : Nat) (index : Int32) :
    LoopsFirst forLoop.descriptor.flows (iterate remaining index) := by
  induction remaining generalizing index with
  | zero =>
      refine .other nofun fun cancelled => ?_
      cases cancelled with
      | true => exact .done
      | false => exact .last trivial
  | succ remaining ih =>
      refine .other nofun fun cancelled => ?_
      cases cancelled with
      | true => exact .done
      | false => exact .other nofun fun _ => .loop rfl rfl (ih (index + 1))

/-- Whatever it is replied with, a node of the catalogue fires its loop first. -/
theorem loopsFirst_process (c : CatalogueNode) : LoopsFirst c.descriptor.flows c.process := by
  cases c with
  | constant | onTrigger | fireOnTrue => first | exact .last trivial | exact .other nofun fun _ => .done
  | add => exact .other nofun fun _ => .other nofun fun _ => .other nofun fun _ => .done
  | sum => exact .other nofun fun _ => .other nofun fun _ => .done
  | log | onChanged => exact .other nofun fun _ => .other nofun fun _ => .last trivial
  | branch => exact .other nofun fun _ => .last trivial
  | statefulBranch | counter =>
      exact .other nofun fun _ => .other nofun fun _ => .other nofun fun _ => .last trivial
  | branchWithState =>
      exact .other nofun fun _ => .other nofun fun _ => .other nofun fun _ => .other nofun fun _ =>
        .other nofun fun _ => .last trivial
  | fireOnInterval =>
      refine .other nofun fun _ => .other nofun fun passed => ?_
      cases passed with
      | true => exact .loop rfl rfl (.other nofun nofun)
      | false => exact .done
  | fireWhileTrue =>
      refine .other nofun fun cancelled => ?_
      cases cancelled with
      | true => exact .done
      | false =>
          refine .other nofun fun condition => .other nofun fun interval => ?_
          cases condition with
          | true =>
              refine .loop rfl rfl ?_
              simp only [Program.done_andThen]
              split
              · refine .other nofun fun passed => ?_
                cases passed with
                | true => exact .other nofun nofun
                | false => exact .done
              · exact .other nofun fun _ => .other nofun nofun
          | false =>
              refine .other nofun fun cancelled => ?_
              cases cancelled with
              | true => exact .done
              | false => exact .last trivial
  | forLoop => exact .other nofun fun _ => loopsFirst_iterate _ _
  | delay =>
      refine .other nofun fun _ => .other nofun fun passed => ?_
      cases passed with
      | true => exact .last trivial
      | false => exact .done
  | parseInt =>
      refine .other nofun fun text => ?_
      simp only [Program.done_andThen]
      split
      · exact .other nofun fun _ => .last trivial
      · exact .last trivial

end CatalogueNode

/-- All firings but the last are those of a loop. -/
def LoopsFirst (flows : List Flow) (firings : List (Nat × List FlowTree)) : Prop :=
  ∀ firing ∈ firings.dropLast, ∃ f, flows[firing.1]? = some f ∧ f.isLoop = true

/-- Below the top of a tree stand all targets of what the node at the top fires, which fires loops first. -/
def Graph.Grows (g : Graph) : FlowTree → Prop
  | .node n firings =>
    (∀ firing ∈ firings, firing.2.map FlowTree.root = g.targets ⟨n, firing.1⟩) ∧
      ∃ m, g.member? n = some m ∧ LoopsFirst m.descriptor.flows firings

namespace Engine

variable {g : Graph}

theorem Conducts.eq_nil {s : Scope} {process rest : NodeProgram Unit} {events : List Event}
    {firings : List (Nat × List FlowTree)} (rests : rest.Asks NodeRequest.Rests) :
    Conducts g s process rest events firings → firings = []
  | .done => rfl
  | .fire .. => absurd rfl (rests.1.2 _)
  | .again _ => absurd rfl rests.1.1
  | .answer _ _ _ later => later.eq_nil (rests.2 _)

/-- A process that fires loops first does so when it is carried out. -/
theorem Conducts.loopsFirst {s : Scope} {process rest : NodeProgram Unit} {events : List Event}
    {firings : List (Nat × List FlowTree)} {flows : List Flow} (starts : process.LoopsFirst flows)
    (goesOn : rest.LoopsFirst flows) :
    Conducts g s process rest events firings → LoopsFirst flows firings
  | .done => nofun
  | @Conducts.fire _ _ _ flow trees _ _ firings _ _ later => by
      cases goesOn with
      | @loop _ f _ declared loop goesOn =>
          have later := later.loopsFirst starts goesOn
          cases firings with
          | nil => nofun
          | cons second firings => exact List.forall_mem_cons.mpr ⟨⟨f, declared, loop⟩, later⟩
      | last rests =>
          obtain rfl := later.eq_nil rests
          nofun
      | other fires => exact absurd rfl (fires _)
  | .again later => later.loopsFirst starts starts
  | .answer fires _ _ later => by
      cases goesOn with
      | other _ goesOn => exact later.loopsFirst starts (goesOn _)
      | loop => exact absurd rfl (fires _)
      | last => exact absurd rfl (fires _)

/-- Each firing lets flow into the targets of what is fired. -/
theorem Conducts.leadsTo {s : Scope} {process rest : NodeProgram Unit} {events : List Event}
    {firings : List (Nat × List FlowTree)} :
    Conducts g s process rest events firings → ∀ firing ∈ firings,
      ∃ within, LeadsTo g (s.depth + 1) (g.targets ⟨s.node, firing.1⟩) within firing.2
  | .done => nofun
  | .fire leads later => List.forall_mem_cons.mpr ⟨⟨_, leads⟩, later.leadsTo⟩
  | .again later => later.leadsTo
  | .answer _ _ _ later => later.leadsTo

theorem Unfolds.root_eq {s : Scope} {events : List Event} {tree : FlowTree}
    (h : Unfolds g s events tree) : tree.root = s.node := by
  cases h
  rfl

/-- Flow unfolds one tree in each of the nodes that it is let into. -/
theorem LeadsTo.unfolds {depth : Nat} {targets : List NodeId} {events : List Event}
    {trees : List FlowTree} :
    LeadsTo g depth targets events trees →
      trees.map FlowTree.root = targets ∧ ∀ tree ∈ trees, ∃ s within, Unfolds g s within tree
  | .nil => ⟨rfl, nofun⟩
  | .cons unfolds later => by
      obtain ⟨roots, others⟩ := later.unfolds
      constructor
      · rw [List.map_cons, roots, unfolds.root_eq]
      · exact List.forall_mem_cons.mpr ⟨⟨_, _, unfolds⟩, others⟩

/-- Wherever in a tree that is unfolded, the nodes stand as the connections say. -/
theorem Unfolds.grows (catalogue : g.FromCatalogue) {s : Scope} {events : List Event}
    {tree sub : FlowTree} (h : Unfolds g s events tree) (within : sub.Within tree) : g.Grows sub := by
  induction within generalizing s events with
  | self =>
      cases h with
      | @begins _ m _ _ _ _ _ member _ _ conducts =>
          obtain ⟨c, node⟩ := catalogue.kind member
          have starts : m.node.process.LoopsFirst m.descriptor.flows := by
            rw [Member.descriptor, node]
            exact c.loopsFirst_process
          refine ⟨fun firing fired => ?_, m, member, conducts.loopsFirst starts starts⟩
          obtain ⟨_, leads⟩ := conducts.leadsTo firing fired
          exact leads.unfolds.1
  | child fired leads _ ih =>
      cases h with
      | begins _ _ _ conducts =>
          obtain ⟨_, leadsTo⟩ := conducts.leadsTo _ fired
          obtain ⟨_, _, unfolds⟩ := leadsTo.unfolds.2 _ leads
          exact ih unfolds

theorem begun_of_quiet (catalogue : g.FromCatalogue) {α : Type} {s : Scope} {p : Engine α} {steps : Nat}
    {events : List Event} {a : α} (quiet : p.Asks (Quiet g)) (h : CarriedOut g s p steps events a) :
    begun events = [] :=
  h.begun_eq_nil catalogue (quiet.mono fun _ quiet => quiet.still)

theorem begun_of_observing (catalogue : g.FromCatalogue) {s : Scope} {index : Nat} {inputs : List Input}
    {steps : Nat} {events : List Event} {changed : Bool}
    (h : CarriedOut g s (observeFrom g s index inputs) steps events changed) : begun events = [] :=
  h.begun_eq_nil catalogue ((observing_observeFrom index inputs).mono fun _ observing => observing.still)

theorem Opens.begun_eq_nil (catalogue : g.FromCatalogue) {s : Scope} {m : Member} {events : List Event}
    (h : Opens g s m events) : begun events = [] := by
  cases h with
  | ungated => rfl
  | changed _ observes =>
      have looked := begun_of_observing catalogue observes
      exact looked

/-- An activation that does not go ahead lists nothing. -/
theorem Declines.begun_eq_nil (catalogue : g.FromCatalogue) {s : Scope} {events : List Event}
    (h : Declines g s events) : begun events = [] := by
  cases h with
  | unchanged _ _ observes =>
      have looked := begun_of_observing catalogue observes
      rw [← List.singleton_append, begun_append, begun_append, looked]
      rfl
  | refused member opens guarded =>
      rw [begun_append, opens.begun_eq_nil catalogue,
        begun_of_quiet catalogue (quiet_guard_of_member catalogue member) guarded, List.nil_append]

mutual

/-- What an activation lists are the nodes of its tree, each before those below it. -/
theorem Unfolds.begun_eq (catalogue : g.FromCatalogue) (lists : g.config.recordActivations = true)
    {s : Scope} {events : List Event} {tree : FlowTree} :
    Unfolds g s events tree → begun events = tree.preorder
  | .begins member opens guarded conducts => by
      have guard := begun_of_quiet catalogue (quiet_guard_of_member catalogue member) guarded
      rw [begun_append, begun_append, opens.begun_eq_nil catalogue, guard, lists, List.nil_append,
        List.nil_append, FlowTree.preorder, ← conducts.begun_eq catalogue lists]
      rfl

theorem Conducts.begun_eq (catalogue : g.FromCatalogue) (lists : g.config.recordActivations = true)
    {s : Scope} {process rest : NodeProgram Unit} {events : List Event}
    {firings : List (Nat × List FlowTree)} :
    Conducts g s process rest events firings → begun events = FlowTree.preorderFirings firings
  | .done => rfl
  | .fire leads later => by
      rw [FlowTree.preorderFirings, ← leads.begun_eq catalogue lists,
        ← later.begun_eq catalogue lists, ← begun_append]
      rfl
  | .again later => later.begun_eq catalogue lists
  | .answer fires starts answered later => by
      rw [begun_append, answered.begun_eq_nil catalogue (still_answer fires starts), List.nil_append]
      exact later.begun_eq catalogue lists

theorem LeadsTo.begun_eq (catalogue : g.FromCatalogue) (lists : g.config.recordActivations = true)
    {depth : Nat} {targets : List NodeId} {events : List Event} {trees : List FlowTree} :
    LeadsTo g depth targets events trees → begun events = FlowTree.preorderAll trees
  | .nil => rfl
  | .cons unfolds later => by
      rw [FlowTree.preorderAll, ← unfolds.begun_eq catalogue lists,
        ← later.begun_eq catalogue lists, ← begun_append]
      rfl

end

end Engine

/-- What an action adds to the list of activations is what its event says. -/
theorem Action.activations_perform (a : Action) (w : World) (p : Pulse) :
    (a.perform w p).2.2.activations.toList =
      p.activations.toList ++ begun [.did a (a.perform w p).1] := by
  cases a with
  | begin n list =>
      cases list with
      | true => exact Array.toList_push
      | false => exact (List.append_nil _).symm
  | completeEvaluation resting =>
      have kept := p.completeEvaluation_keeps (·.activations.toList) resting (fun _ _ => rfl)
        fun _ _ _ => rfl
      exact kept.trans (List.append_nil _).symm
  | _ => exact (List.append_nil _).symm

/-- A pulse reports the activations that it lists as it goes. -/
theorem Machine.Finishes.activations {g : Graph} (catalogue : g.FromCatalogue)
    {others : World → World → Prop} {w w' : World} {m : Machine} {report : Report} {events : List Event}
    (underWay : g.UnderWay m) (h : Finishes g others w' (.ok report) w m events) :
    report.activations = m.pulse.activations.toList ++ begun events := by
  induction h with
  | ended ends =>
      rw [report_of_ended ends]
      exact (List.append_nil _).symm
  | others _ _ ih => exact ih underWay
  | @move w w₁ m m₁ later moves _ ih =>
      rw [ih (underWay.next catalogue moves), begun_append]
      rcases pulse_step underWay.fits.single underWay.alone moves with ⟨a, does, eq⟩ | ⟨eq, does⟩
      · rw [eq, a.activations_perform, does, List.append_assoc]
        rfl
      · have nothing : begun (m.event? w).toList = [] := by
          cases event : m.event? w with
          | none => rfl
          | some e =>
              cases e with
              | did a reply => exact absurd event (does a reply)
              | entered => rfl
        rw [eq, nothing, List.nil_append]

namespace Graph

/-- A pulse that ends without having been cancelled lists the tree of its flow in preorder, or nothing if
its root declines. At every node of the tree stand all targets of what the node has fired, in the order in
which it has fired and they are connected, and of all that it has fired only the last was no loop's. -/
theorem activations_in_preorder {g : Graph} (catalogue : g.FromCatalogue)
    (lists : g.config.recordActivations = true) {root : NodeId} {r : Member}
    (triggerable : g.root root = .ok r) {w₀ w w' : World} {token : TokenId} {events : List Event}
    {m : Machine} {report : Report}
    (run : Machine.Run g (World.Onward token) (Machine.start g w₀ root token).1
      (Machine.start g w₀ root token).2 events w m)
    (ends : m.step g w = .ended w' (.ok report)) (uncancelled : report.cancelled = false) :
    (Engine.Declines g ⟨root, 0⟩ events → report.activations = []) ∧
      (¬ Engine.Declines g ⟨root, 0⟩ events →
        ∃ tree, Engine.Unfolds g ⟨root, 0⟩ events tree ∧ report.activations = tree.preorder ∧
          tree.root = root ∧ ∀ sub, sub.Within tree → g.Grows sub) := by
  have underWay := underWay_start catalogue triggerable w₀ token
  have finishes := run.finishes (.ended ends)
  rw [List.append_nil] at finishes
  have activations : report.activations = begun events := finishes.activations catalogue underWay
  obtain ⟨_, unseen⟩ := finishes.uncancelled catalogue underWay rfl uncancelled
  obtain ⟨steps, before, after, carriedOut, rfl, same⟩ := finishes.carryOut catalogue underWay
  obtain rfl : events = before := same.trans (List.append_nil _)
  obtain ⟨m, member, _⟩ := isDriven_of_root triggerable
  have unfolds := Engine.unfolds_or_declines (s := ⟨root, 0⟩) catalogue
    (Engine.unfoldsBelow catalogue steps) member unseen carriedOut
  refine ⟨fun declines => ?_, fun goesAhead => ?_⟩
  · rw [activations, declines.begun_eq_nil catalogue]
  · obtain ⟨tree, unfolds⟩ := unfolds.resolve_left goesAhead
    refine ⟨tree, unfolds, ?_, unfolds.root_eq, fun sub within => unfolds.grows catalogue within⟩
    rw [activations, unfolds.begun_eq catalogue lists]

/-- An entry that leads to a branch and then to a log; the branch leads to a log of its own. -/
def fork : Graph where
  name := "fork"
  config := {}
  members := [⟨"entry", CatalogueNode.onTrigger.node⟩, ⟨"branch", CatalogueNode.branch.node⟩,
    ⟨"last", (CatalogueNode.log .int .own).node⟩, ⟨"inner", (CatalogueNode.log .int .own).node⟩]
  valueEdges := []
  flowEdges := [⟨⟨⟨0⟩, 0⟩, ⟨1⟩⟩, ⟨⟨⟨0⟩, 0⟩, ⟨2⟩⟩, ⟨⟨⟨1⟩, 1⟩, ⟨3⟩⟩]

theorem fork_fromCatalogue : fork.FromCatalogue where
  built := ⟨"fork", {},
    [.add "entry" CatalogueNode.onTrigger.node, .add "branch" CatalogueNode.branch.node,
      .add "last" (CatalogueNode.log .int .own).node, .add "inner" (CatalogueNode.log .int .own).node,
      .connectFlow ⟨"entry", "Next", "branch"⟩, .connectFlow ⟨"entry", "Next", "last"⟩,
      .connectFlow ⟨"branch", "False", "inner"⟩], by cbv⟩
  nodes m member := by
    simp only [fork, List.mem_cons, List.not_mem_nil, or_false] at member
    rcases member with rfl | rfl | rfl | rfl <;> exact ⟨_, rfl⟩

/-- What the branch leads to comes before the second target of the entry. -/
theorem activations_in_preorder_fork :
    ∃ r events w m w' report, fork.root ⟨0⟩ = .ok r ∧
      Machine.Run fork (World.Onward ⟨0⟩) (Machine.start fork {} ⟨0⟩ ⟨0⟩).1
        (Machine.start fork {} ⟨0⟩ ⟨0⟩).2 events w m ∧
      m.step fork w = .ended w' (.ok report) ∧ report.cancelled = false ∧
      report.activations = [⟨0⟩, ⟨1⟩, ⟨3⟩, ⟨2⟩] ∧
      (Engine.Declines fork ⟨⟨0⟩, 0⟩ events → report.activations = []) ∧
        (¬ Engine.Declines fork ⟨⟨0⟩, 0⟩ events →
          ∃ tree, Engine.Unfolds fork ⟨⟨0⟩, 0⟩ events tree ∧ report.activations = tree.preorder ∧
            tree.root = ⟨0⟩ ∧ ∀ sub, sub.Within tree → fork.Grows sub) := by
  have triggerable : fork.root ⟨0⟩ = .ok ⟨"entry", CatalogueNode.onTrigger.node⟩ := rfl
  have run : Machine.Run fork (World.Onward ⟨0⟩) _ _ _ _ _ :=
    Machine.run_alone fork (fun _ _ cancelled => cancelled) (Machine.start fork {} ⟨0⟩ ⟨0⟩).1
      (Machine.start fork {} ⟨0⟩ ⟨0⟩).2 23
  refine ⟨_, _, _, _, _, _, triggerable, run, rfl, rfl, rfl, ?_⟩
  exact activations_in_preorder fork_fromCatalogue rfl triggerable run rfl rfl

end Graph

end FlowGraph
