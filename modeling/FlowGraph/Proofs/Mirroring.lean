import FlowGraph.Demo.Graph
import FlowGraph.Proofs.Renumbering
import FlowGraph.Proofs.Stepping

/-!
# Sessions in a renumbered graph

A renaming that carries a graph over carries its sessions over: the clock, the tokens and the queue are the
same, and what the world and the tasks remember belongs to what the nodes have become. Whatever the host
does by name then takes as many steps, and has the same results up to the renaming, in the session and in
its image.
-/

namespace FlowGraph

theorem Graph.root_rename {π : Renaming} {g g' : Graph} (h : π.Carries g g') (n : NodeId) :
    g'.root (π n) = (g.root n).mapError (PulseError.rename π) := by
  rw [root, root, h.member]
  cases g.member? n with
  | none => rfl
  | some m =>
      dsimp only
      split <;> rfl

variable (π : Renaming)

def Phase.rename : Phase → Phase
  | .starting root => .starting (π root)
  | .running m => .running (m.rename π)
  | .resting m => .resting (m.rename π)
  | .sleeping deadline m => .sleeping deadline (m.rename π)
  | .ended result => .ended (π.result result)

def Task.rename (t : Task) : Task :=
  { t with phase := t.phase.rename π }

/-- The image of a session in the renumbered graph. -/
def Session.rename (g' : Graph) (s : Session) : Session :=
  { s with graph := g', world := s.world.rename π, tasks := s.tasks.map (Task.rename π) }

variable {π}

theorem Phase.ofProgress_rename (p : Progress) :
    ofProgress (p.rename π) = ((ofProgress p).1.rename π, (ofProgress p).2.rename π) := by
  cases p <;> rfl

namespace World

variable (w : World)

theorem round_rename (seats : List TokenId) : (w.rename π).round seats = w.round seats := by
  fun_induction round w seats with
  | case1 => rw [round]
  | case2 t rest cancelled ih =>
      rw [round, ← ih]
      exact if_pos cancelled
  | case3 t rest live ih =>
      rw [round, ih]
      exact if_neg live

theorem told_rename : (w.rename π).told = w.told := by
  simp only [told, round_rename]
  rfl

end World

namespace Task

variable (t : Task)

@[simp] theorem id_rename : (t.rename π).id = t.id := rfl

@[simp] theorem isRunning_rename : (t.rename π).isRunning = t.isRunning := by
  rcases t with ⟨id, token, phase, kept⟩
  cases phase <;> rfl

@[simp] theorem isResting_rename : (t.rename π).isResting = t.isResting := by
  rcases t with ⟨id, token, phase, kept⟩
  cases phase <;> rfl

@[simp] theorem deadline?_rename : (t.rename π).deadline? = t.deadline? := by
  rcases t with ⟨id, token, phase, kept⟩
  cases phase <;> rfl

@[simp] theorem alarm?_rename : (t.rename π).alarm? = t.alarm? := by
  rcases t with ⟨id, token, phase, kept⟩
  cases phase <;> rfl

@[simp] theorem isEnded_rename : (t.rename π).isEnded = t.isEnded := by
  rcases t with ⟨id, token, phase, kept⟩
  cases phase <;> rfl

/-- A task moves in the renumbered graph as it does in the original. -/
theorem move_rename {g g' : Graph} (h : π.Carries g g') (catalogue : g.FromCatalogue) (w : World) :
    (t.rename π).move g' (w.rename π) = ((t.move g w).1.rename π, (t.move g w).2.rename π) := by
  obtain ⟨id, token, phase, kept⟩ := t
  cases phase with
  | starting root =>
      have root_rename := Graph.root_rename h root
      simp only [move, rename, Phase.rename, root_rename]
      cases g.root root with
      | error e => rfl
      | ok m =>
          have started := Machine.start_rename w.beginTurn h catalogue root token
          exact congrArg (fun begun => (begun.1, Phase.running begun.2)) started
  | running m =>
      have moved := Machine.step_rename w m h catalogue
      exact (congrArg Phase.ofProgress moved).trans (Phase.ofProgress_rename _)
  | resting m | sleeping deadline m =>
      have moved := Machine.step_rename w.beginTurn m h catalogue
      exact (congrArg Phase.ofProgress moved).trans (Phase.ofProgress_rename _)
  | ended result => rfl

end Task

namespace Session

variable (s : Session) (g' : Graph)

theorem task?_rename (id : TaskId) :
    (s.rename π g').task? id = (s.task? id).map (Task.rename π) := by
  rw [task?, task?, rename, List.find?_map]
  rfl

/-- Choosing tasks by what a renaming leaves alone. -/
theorem filter_tasks_rename (π : Renaming) {p : Task → Bool} (same : ∀ t : Task, p (t.rename π) = p t) :
    (s.rename π g').tasks.filter p = (s.tasks.filter p).map (Task.rename π) := by
  simp [rename, List.filter_map, Function.comp_def, same]

theorem rename_put (t : Task) : (s.put t).rename π g' = (s.rename π g').put (t.rename π) := by
  have others := filter_tasks_rename s g' π (p := (·.id ≠ t.id)) fun _ => rfl
  rw [put, put, Task.id_rename, others, rename, List.map_append]
  rfl

theorem rename_giveUp (token : TokenId) : (s.giveUp token).rename π g' = (s.rename π g').giveUp token := by
  simp only [giveUp, rename, World.rename_giveUp]

theorem rename_remove (t : Task) : (s.remove t).rename π g' = (s.rename π g').remove (t.rename π) := by
  have others := filter_tasks_rename s g' π (p := (·.id ≠ t.id)) fun _ => rfl
  rw [remove, remove, Task.id_rename, others, rename, World.rename_giveUp]
  rfl

theorem rename_enqueue (tasks : List Task) :
    (s.enqueue tasks).rename π g' = (s.rename π g').enqueue (tasks.map (Task.rename π)) := by
  simp [enqueue, rename, Function.comp_def]

theorem rename_wake (tokens : List TokenId) :
    (s.wake tokens).rename π g' = (s.rename π g').wake tokens := by
  simp only [wake, rename_enqueue, List.map_flatMap]
  congr 2
  funext token
  exact (filter_tasks_rename s g' π fun t => by simp).symm

theorem rename_heedShutDown (before : World) :
    (s.heedShutDown before).rename π g' = (s.rename π g').heedShutDown (before.rename π) := by
  rw [heedShutDown, heedShutDown, World.told_rename]
  split
  · next h => exact (rename_wake s g' before.told).trans (if_pos h).symm
  · next h => exact (if_neg h).symm

theorem rename_endTurn (t : Task) :
    (s.endTurn t).rename π g' = (s.rename π g').endTurn (t.rename π) := by
  have kept : (t.rename π).isKept = t.isKept := rfl
  simp only [endTurn, Task.isRunning_rename, Task.isEnded_rename, kept]
  split
  · rfl
  · split
    · exact rename_remove _ g' t
    · rfl

theorem rename_setClock (now : Nat) : (s.setClock now).rename π g' = (s.rename π g').setClock now := by
  have due := filter_tasks_rename s g' π (p := fun t => t.deadline?.any (· ≤ now)) (by simp)
  rw [setClock, setClock, due, rename_enqueue]
  rfl

theorem rename_rouse : s.rouse.rename π g' = (s.rename π g').rouse := by
  have resting := filter_tasks_rename s g' π (p := (·.isResting)) (by simp)
  rw [rouse, rouse, resting, rename_enqueue, List.map_reverse]

theorem resume?_rename (deadline? : Option Nat) :
    (s.rename π g').resume? deadline? = (s.resume? deadline?).map (Session.rename π g') := by
  have deadlines : (s.rename π g').tasks.filterMap (·.deadline?) = s.tasks.filterMap (·.deadline?) := by
    simp [rename, List.filterMap_map]
  have queue : (s.rename π g').queue = s.queue := rfl
  rw [resume?, resume?, deadlines, queue]
  split
  · rw [Option.map_map]
    congr 1
    funext now
    exact (rename_setClock s g' now).symm
  · rfl

theorem graph_endTurn (t : Task) : (s.endTurn t).graph = s.graph := by
  rw [endTurn]
  split
  · rfl
  · dsimp only
    split <;> rfl

theorem graph_heedShutDown (before : World) : (s.heedShutDown before).graph = s.graph := by
  rw [heedShutDown]
  split <;> rfl

/-- A session of one graph, and its image in the other. -/
structure Mirrors (π : Renaming) (g g' : Graph) (s s' : Session) : Prop where
  graph : s.graph = g
  image : s' = s.rename π g'

namespace Mirrors

variable {s g'} {g : Graph} {s' : Session} {m : Machine} {budget : Nat}

/-- Nothing that leaves the graph alone and is the same in the image tells the two apart. -/
theorem of (same : Mirrors π g g' s s') {f : Session → Session} (graph : (f s).graph = s.graph)
    (image : (f s).rename π g' = f (s.rename π g')) : Mirrors π g g' (f s) (f s') where
  graph := graph.trans same.graph
  image := by rw [same.image, image]

theorem rouse (same : Mirrors π g g' s s') : Mirrors π g g' s.rouse s'.rouse :=
  same.of rfl (rename_rouse s g')

theorem giveUp (same : Mirrors π g g' s s') (token : TokenId) :
    Mirrors π g g' (s.giveUp token) (s'.giveUp token) :=
  same.of (f := (·.giveUp token)) rfl (rename_giveUp s g' token)

/-- The host goes on in another world, and in its image. -/
theorem world (same : Mirrors π g g' s s') (w : World) :
    Mirrors π g g' { s with world := w } { s' with world := w.rename π } where
  graph := same.graph
  image := by
    rw [same.image]
    rfl

theorem put (same : Mirrors π g g' s s') (t : Task) : Mirrors π g g' (s.put t) (s'.put (t.rename π)) where
  graph := same.graph
  image := by rw [same.image, rename_put]

theorem endTurn (same : Mirrors π g g' s s') (t : Task) :
    Mirrors π g g' (s.endTurn t) (s'.endTurn (t.rename π)) where
  graph := (graph_endTurn s t).trans same.graph
  image := by rw [same.image, rename_endTurn]

theorem heedShutDown (same : Mirrors π g g' s s') (before : World) :
    Mirrors π g g' (s.heedShutDown before) (s'.heedShutDown (before.rename π)) where
  graph := (graph_heedShutDown s before).trans same.graph
  image := by rw [same.image, rename_heedShutDown]

theorem resume? (same : Mirrors π g g' s s') (deadline? : Option Nat) :
    (s.resume? deadline? = none ∧ s'.resume? deadline? = none) ∨
      ∃ next next', s.resume? deadline? = some next ∧ s'.resume? deadline? = some next' ∧
        Mirrors π g g' next next' := by
  rw [same.image, resume?_rename]
  cases resumed : s.resume? deadline? with
  | none => exact .inl ⟨rfl, rfl⟩
  | some next =>
      refine .inr ⟨next, next.rename π g', rfl, rfl, ?_, rfl⟩
      rw [Session.resume?] at resumed
      split at resumed
      · obtain ⟨now, _, rfl⟩ := Option.map_eq_some_iff.mp resumed
        exact same.graph
      · rw [← Option.some.inj resumed, same.graph]

variable (h : π.Carries g g') (catalogue : g.FromCatalogue)

include h catalogue

/-- The first task in the queue moves. -/
theorem step? (same : Mirrors π g g' s s') :
    (s.step? = none ∧ s'.step? = none) ∨
      ∃ next next', s.step? = some next ∧ s'.step? = some next' ∧ Mirrors π g g' next next' := by
  rw [same.image]
  have queue : (s.rename π g').queue = s.queue := rfl
  cases queued : s.queue with
  | nil => exact .inl ⟨step?_eq_none_iff.mpr queued, step?_eq_none_iff.mpr queued⟩
  | cons id rest =>
      cases found : s.task? id with
      | none =>
          have gone : s.step? = some { s with queue := rest } := by
            simp only [Session.step?, queued, found]
          have gone' : (s.rename π g').step? = some { s.rename π g' with queue := rest } := by
            simp only [Session.step?, queue, queued, task?_rename, found, Option.map_none]
          exact .inr ⟨_, _, gone, gone', same.graph, rfl⟩
      | some t =>
          have head : s.queue.head?.bind s.task? = some t := by simp [queued, found]
          have head' : (s.rename π g').queue.head?.bind (s.rename π g').task? = some (t.rename π) := by
            simp [queue, queued, task?_rename, found]
          have moved : (t.rename π).move (s.rename π g').graph (s.rename π g').world =
              ((t.move s.graph s.world).1.rename π, (t.move s.graph s.world).2.rename π) := by
            rw [same.graph]
            exact t.move_rename h catalogue s.world
          refine .inr ⟨_, _, step?_eq head, step?_eq head', ?_⟩
          rw [moved]
          have image : Mirrors π g g' s (s.rename π g') := ⟨same.graph, rfl⟩
          let t' : Task := { t with phase := (t.move s.graph s.world).2 }
          exact (((image.world (t.move s.graph s.world).1).put t').endTurn t').heedShutDown s.world

theorem haveTurns (same : Mirrors π g g' s s') (turns budget : Nat) :
    (s.haveTurns turns budget).Alike (Mirrors π g g') (s'.haveTurns turns budget) := by
  induction budget generalizing turns s s' with
  | zero =>
      cases turns with
      | zero => exact .answer same
      | succ turns => exact .outOfSteps
  | succ budget ih =>
      cases turns with
      | zero => exact .answer same
      | succ turns =>
          rw [Session.haveTurns, Session.haveTurns]
          rcases same.step? h catalogue with ⟨none, none'⟩ | ⟨next, next', some, some', after⟩
          · rw [none, none']
            exact .answer same
          · have queue : s'.queue = s.queue := by rw [same.image]; rfl
            have queue' : next'.queue = next.queue := by rw [after.image]; rfl
            simp only [some, some', queue, queue']
            exact ih after _

theorem giveWay (same : Mirrors π g g' s s') (budget : Nat) :
    (s.giveWay budget).Alike (Mirrors π g g') (s'.giveWay budget) :=
  (same.haveTurns h catalogue patience budget).andThen fun after =>
    .answer (after.rouse.of (f := beginTurn) rfl rfl)

theorem waitUntil (same : Mirrors π g g' s s') (canGoOn : Session → Bool)
    (agree : ∀ s, canGoOn (s.rename π g') = canGoOn s) (deadline? : Option Nat) (budget : Nat) :
    (Session.waitUntil canGoOn deadline? budget s).Alike (Mirrors π g g')
      (Session.waitUntil canGoOn deadline? budget s') := by
  induction budget generalizing s s' with
  | zero => exact .outOfSteps
  | succ budget ih =>
      rw [Session.waitUntil, Session.waitUntil, same.image, agree, ← same.image]
      split
      · exact .answer same
      · refine (same.giveWay h catalogue budget).andThen fun {s s'} after => ?_
        rw [after.image, agree, ← after.image]
        split
        · exact .answer after
        · rcases after.resume? deadline? with ⟨none, none'⟩ | ⟨next, next', some, some', later⟩
          · rw [none, none']
            exact .outOfSteps
          · rw [some, some']
            exact ih later

/-- The host's answers about a pulse in a session and in its image. -/
abbrev Agree (π : Renaming) (g g' : Graph) (a a' : Session × Except PulseError Report) : Prop :=
  Mirrors π g g' a.1 a'.1 ∧ a'.2 = π.result a.2

theorem runInTurn (same : Mirrors π g g' s s') (m : Machine) (budget : Nat) :
    (s.runInTurn budget m).Alike (Agree π g g') (s'.runInTurn budget (m.rename π)) := by
  induction budget generalizing s s' m with
  | zero => exact .outOfSteps
  | succ budget ih =>
      have moved := Machine.step_rename s.world m h catalogue
      have here : (m.rename π).step s'.graph s'.world = (m.step s.graph s.world).rename π := by
        rw [same.image, same.graph]
        exact moved
      rw [Session.runInTurn, Session.runInTurn, here]
      cases m.step s.graph s.world with
      | running w m =>
          have before : s'.world = s.world.rename π := by rw [same.image]; rfl
          simp only [Progress.rename, before]
          exact ih ((same.world w).heedShutDown s.world) m
      | resting w m =>
          exact ((same.world w).giveWay h catalogue budget).andThen fun after => ih after m
      | sleeping w milliseconds m =>
          let canGoOn (s : Session) : Bool :=
            w.now + milliseconds ≤ s.world.now || s.world.isCancelled m.pulse.token
          have waited := (same.world w).waitUntil h catalogue canGoOn (fun _ => rfl)
            (some (w.now + milliseconds)) budget
          exact waited.andThen fun after => ih after m
      | ended w result => exact .answer ⟨same.world w, rfl⟩

theorem triggerWith (same : Mirrors π g g' s s') (root : NodeId) (token : TokenId) (budget : Nat) :
    (s.triggerWith budget root token).Alike (Agree π g g') (s'.triggerWith budget (π root) token) := by
  have asked : s'.graph.root (π root) = (s.graph.root root).mapError (PulseError.rename π) := by
    rw [same.image, same.graph]
    exact Graph.root_rename h root
  rw [Session.triggerWith, Session.triggerWith, asked]
  cases s.graph.root root with
  | error e => exact .answer ⟨same.giveUp token, rfl⟩
  | ok m =>
      have started : Machine.start s'.graph s'.world (π root) token =
          ((Machine.start s.graph s.world root token).1.rename π,
            (Machine.start s.graph s.world root token).2.rename π) := by
        rw [same.image, same.graph]
        exact Machine.start_rename s.world h catalogue root token
      simp only [Except.mapError, started]
      exact ((same.world _).runInTurn h catalogue _ budget).andThen fun after =>
        .answer ⟨after.1.giveUp token, after.2⟩

theorem trigger (same : Mirrors π g g' s s') (root : NodeId) (budget : Nat) :
    (s.trigger budget root).Alike (Agree π g g') (s'.trigger budget (π root)) := by
  have token : (s'.addToken {}).2 = (s.addToken {}).2 := by
    rw [same.image]
    rfl
  have added : Mirrors π g g' (s.addToken {}).1 (s'.addToken {}).1 := ⟨same.graph, by rw [same.image]; rfl⟩
  change ((s.addToken {}).1.triggerWith budget root (s.addToken {}).2).Alike _
    ((s'.addToken {}).1.triggerWith budget (π root) (s'.addToken {}).2)
  rw [token]
  exact added.triggerWith h catalogue root _ budget

/-- The host triggers a node by name: it means the same node, or none, in both graphs. -/
theorem triggerNamed (same : Mirrors π g g' s s') (name : String) (budget : Nat) :
    (Demo.trigger budget s name).Alike (Agree π g g') (Demo.trigger budget s' name) := by
  have named : s'.graph.id? name = (s.graph.id? name).map π := by
    rw [same.image, same.graph]
    exact h.id name
  rw [Demo.trigger, Demo.trigger, Graph.named, Graph.named, named]
  cases s.graph.id? name with
  | none => exact .answer ⟨same, rfl⟩
  | some n => exact same.trigger h catalogue n budget

end Mirrors

end Session

end FlowGraph
