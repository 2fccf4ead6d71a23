import Mathlib.Data.List.Perm.Subperm
import FlowGraph.Proofs.Hosting
import FlowGraph.Proofs.Queueing
import FlowGraph.Proofs.Truncation
import FlowGraph.Proofs.Turns

/-!
# Sessions take turns

A session decides who has the turn and for how long hosts wait. All of this is one way to take turns: the
task at the head of the queue has the turn as long as it runs, a pulse that the host triggers has it in
between, and everybody else waits. So what holds of pulses that take turns holds of sessions.
-/

namespace FlowGraph

/-- The machine of a pulse that has the turn. -/
def Phase.running? : Phase → Option Machine
  | .running m => some m
  | _ => none

/-- The machine of a pulse that waits for its turn. -/
def Phase.waiting? : Phase → Option Machine
  | .resting m | .sleeping _ m => some m
  | _ => none

/-- What a session notes down besides moving its tasks: nodes find the same, and the graph is shut down if it
was. -/
structure World.Notes (w w' : World) : Prop where
  state : w.SameState w'
  isShutDown : w'.isShutDown = w.isShutDown

theorem World.notes_giveUp (w : World) (t : TokenId) : w.Notes (w.giveUp t) := by
  rw [World.giveUp]
  split
  · split <;> exact ⟨⟨rfl, rfl, rfl⟩, rfl⟩
  · exact ⟨⟨rfl, rfl, rfl⟩, rfl⟩

namespace Graph

/-- A property that a stage keeps when pulses take their turns and nothing is done in between but to note it
down. It does not depend on anybody's waiting. -/
structure Lasts (g : Graph) (P : Stage → Prop) : Prop where
  fewer : ∀ {w turn waiting fewer}, P ⟨w, turn, waiting⟩ → fewer.Subperm waiting → P ⟨w, turn, fewer⟩
  notes : ∀ {w w' waiting}, P ⟨w, none, waiting⟩ → w.Notes w' → P ⟨w', none, waiting⟩
  starts : ∀ {w waiting root r}, P ⟨w, none, waiting⟩ → g.root root = .ok r → ∀ token,
    P ⟨(Machine.start g w root token).1, some (Machine.start g w root token).2, waiting⟩
  resumes : ∀ {w m waiting}, P ⟨w, none, m :: waiting⟩ → P ⟨w, some m, waiting⟩
  /-- A move of the pulse that has the turn leads to where the phase says. -/
  moves : ∀ {w m waiting}, P ⟨w, some m, waiting⟩ →
    P ⟨(Phase.ofProgress (m.step g w)).1, (Phase.ofProgress (m.step g w)).2.running?,
      (Phase.ofProgress (m.step g w)).2.waiting?.toList ++ waiting⟩

/-- Pulses that take turns can get to where at least these wait. -/
def Attainable (g : Graph) (w₀ : World) (stage : Stage) : Prop :=
  ∃ all, stage.waiting.Subperm all ∧
    Relation.ReflTransGen g.Turns { world := w₀ } ⟨stage.world, stage.turn, all⟩

variable {g : Graph} {w₀ w w' : World} {waiting : List Machine} {P : Stage → Prop}

theorem Attainable.host (h : g.Attainable w₀ ⟨w, none, waiting⟩) (changes : g.HostChanges w w') :
    g.Attainable w₀ ⟨w', none, waiting⟩ := by
  obtain ⟨all, here, reachable⟩ := h
  exact ⟨all, here, reachable.tail (.host changes)⟩

/-- Pulses take turns. -/
theorem attainable_lasts (g : Graph) (w₀ : World) : g.Lasts (g.Attainable w₀) where
  fewer := by
    rintro w turn waiting fewer ⟨all, here, reachable⟩ among
    exact ⟨all, among.trans here, reachable⟩
  notes h notes := h.host (.otherwise notes.state.observed.symm)
  starts := by
    rintro w waiting root r ⟨all, here, reachable⟩ triggerable token
    exact ⟨all, here, reachable.tail (.start root token triggerable)⟩
  resumes := by
    rintro w m waiting ⟨all, here, reachable⟩
    obtain ⟨before, after, rfl⟩ := List.append_of_mem (here.subset List.mem_cons_self)
    have others : waiting.Subperm (before ++ after) := by
      rw [← List.subperm_cons m]
      exact here.trans List.perm_middle.subperm
    exact ⟨_, others, reachable.tail (.resume ..)⟩
  moves := by
    rintro w m waiting ⟨all, here, reachable⟩
    have stops (m' : Machine) : (m' :: waiting).Subperm (all ++ [m']) :=
      ((List.subperm_cons m').mpr here).trans (List.perm_append_singleton m' all).symm.subperm
    cases progress : m.step g w with
    | running w' m' => exact ⟨all, here, reachable.tail (.move progress)⟩
    | sleeping w' milliseconds m' => exact ⟨_, stops m', reachable.tail (.sleep progress)⟩
    | resting w' m' => exact ⟨_, stops m', reachable.tail (.rest progress)⟩
    | ended w' result => exact ⟨all, here, reachable.tail (.finish progress)⟩

/-- A task whose turn it is does nothing but take turns. -/
theorem Lasts.moveTask (lasts : g.Lasts P) {t : Task}
    (h : P ⟨w, t.phase.running?, t.phase.waiting?.toList ++ waiting⟩) :
    P ⟨(t.move g w).1, (t.move g w).2.running?, (t.move g w).2.waiting?.toList ++ waiting⟩ := by
  have turned : w.Notes w.beginTurn := ⟨⟨rfl, rfl, rfl⟩, rfl⟩
  obtain ⟨id, token, phase, isKept⟩ := t
  cases phase with
  | starting root =>
      rw [Task.move]
      dsimp only
      split
      next e refused => exact h
      next r triggerable => exact lasts.starts (lasts.notes h turned) triggerable token
  | running m => exact lasts.moves h
  | resting m | sleeping deadline m => exact lasts.moves (lasts.resumes (lasts.notes h turned))
  | ended result => exact h

end Graph

namespace Session

/-- How far the tasks of a session have come. -/
def phases (s : Session) : List Phase :=
  s.tasks.map (·.phase)

/-- The machines of the tasks that wait for their turns. -/
def waiting (s : Session) : List Machine :=
  s.phases.filterMap (·.waiting?)

/-- A session without the task that has the turn. -/
def without (s : Session) (t : Task) : Session :=
  { s with tasks := s.tasks.filter (·.id ≠ t.id) }

/-- No task of a session has the turn. A machine of the host may have it, and others wait with the host. -/
structure Idle (g : Graph) (P : Stage → Prop) (turn : Option Machine) (others : List Machine)
    (s : Session) : Prop where
  graph : s.graph = g
  lasts : g.Lasts P
  idle : ∀ phase ∈ s.phases, phase.running? = none
  holds : P ⟨s.world, turn, s.waiting ++ others⟩

/-- A task of a session has the turn, or is about to have it. -/
structure OnTurn (g : Graph) (P : Stage → Prop) (others : List Machine) (s : Session) (t : Task) : Prop where
  graph : s.graph = g
  lasts : g.Lasts P
  head : s.queue.head?.bind s.task? = some t
  idle : ∀ phase ∈ (s.without t).phases, phase.running? = none
  holds : P ⟨s.world, t.phase.running?, t.phase.waiting?.toList ++ ((s.without t).waiting ++ others)⟩

variable {g : Graph} {P : Stage → Prop} {w₀ w : World} {turn : Option Machine} {others : List Machine} {s s' : Session}
  {t : Task} {m : Machine}

/-! ## Bookkeeping -/

theorem phases_put (s : Session) (t : Task) : (s.put t).phases = (s.without t).phases ++ [t.phase] := by
  simp [put, without, phases]

theorem waiting_put (s : Session) (t : Task) :
    (s.put t).waiting = (s.without t).waiting ++ t.phase.waiting?.toList := by
  rw [waiting, phases_put, List.filterMap_append]
  cases h : t.phase.waiting? <;> simp [waiting, h]

theorem phases_without_sublist (s : Session) (t : Task) : (s.without t).phases.Sublist s.phases :=
  List.filter_sublist.map _

/-- What waits besides a task waits in the session. -/
theorem subperm_of_mem (member : t ∈ s.tasks) :
    (t.phase.waiting?.toList ++ (s.without t).waiting).Subperm s.waiting := by
  have first : [t].Sublist (s.tasks.filter (·.id = t.id)) :=
    List.singleton_sublist.mpr (List.mem_filter.mpr ⟨member, by simp⟩)
  have apart : (s.tasks.filter (·.id = t.id) ++ (s.without t).tasks).Perm s.tasks := by
    simpa [without] using List.filter_append_perm (·.id = t.id) s.tasks
  obtain ⟨l, perm, sub⟩ : ([t] ++ (s.without t).tasks).Subperm s.tasks :=
    (first.append (.refl _)).subperm.trans apart.subperm
  have whole : s.waiting = s.tasks.filterMap (·.phase.waiting?) := List.filterMap_map ..
  have parts : ([t] ++ (s.without t).tasks).filterMap (·.phase.waiting?) =
      t.phase.waiting?.toList ++ (s.without t).waiting := by
    rw [List.filterMap_append, waiting, phases, List.filterMap_map]
    cases h : t.phase.waiting? <;> simp [h]
  rw [whole, ← parts]
  exact ⟨_, perm.filterMap _, sub.filterMap _⟩

theorem Idle.of (h : s.Idle g P turn others) (graph : s'.graph = s.graph) (world : s'.world = s.world)
    (phases : s'.phases.Sublist s.phases) : s'.Idle g P turn others where
  graph := graph.trans h.graph
  lasts := h.lasts
  idle phase member := h.idle phase (phases.subset member)
  holds := by
    rw [world]
    exact h.lasts.fewer h.holds ((phases.filterMap _).append (List.Sublist.refl _)).subperm

theorem Idle.notes (h : s.Idle g P none others) (notes : s.world.Notes w) :
    { s with world := w }.Idle g P none others :=
  ⟨h.graph, h.lasts, h.idle, h.lasts.notes h.holds notes⟩

theorem Idle.enqueue (h : s.Idle g P turn others) (tasks : List Task) :
    (s.enqueue tasks).Idle g P turn others :=
  h.of rfl rfl (List.Sublist.refl _)

theorem Idle.heedShutDown (h : s.Idle g P turn others) (before : World) :
    (s.heedShutDown before).Idle g P turn others := by
  rw [Session.heedShutDown]
  split
  · exact h.enqueue _
  · exact h

theorem Idle.giveUp (h : s.Idle g P none others) (token : TokenId) :
    (s.giveUp token).Idle g P none others :=
  h.notes (World.notes_giveUp ..)

theorem Idle.remove (h : s.Idle g P none others) (t : Task) : (s.remove t).Idle g P none others :=
  (h.giveUp t.token).of rfl rfl (phases_without_sublist s t)

theorem Idle.addToken (h : s.Idle g P none others) (token : Token) :
    (s.addToken token).1.Idle g P none others :=
  h.notes ⟨⟨rfl, rfl, rfl⟩, rfl⟩

theorem Idle.beginTurn (h : s.Idle g P none others) : s.beginTurn.Idle g P none others :=
  h.notes ⟨⟨rfl, rfl, rfl⟩, rfl⟩

theorem Idle.endWait (h : s.Idle g P none others) : s.endWait.Idle g P none others :=
  h.notes ⟨⟨rfl, rfl, rfl⟩, rfl⟩

theorem Idle.setClock (h : s.Idle g P none others) (now : Nat) :
    (s.setClock now).Idle g P none others := by
  have set : { s with world := { s.world with now } }.Idle g P none others := h.notes ⟨⟨rfl, rfl, rfl⟩, rfl⟩
  exact set.enqueue _

theorem Idle.resume? (h : s.Idle g P none others) {deadline? : Option Nat}
    (resumes : s.resume? deadline? = some s') : s'.Idle g P none others := by
  rw [Session.resume?] at resumes
  split at resumes
  · obtain ⟨now, _, rfl⟩ := Option.map_eq_some_iff.mp resumes
    exact h.setClock now
  · cases resumes
    exact h

theorem Idle.forget (h : s.Idle g P none others) (id : TaskId) : (s.forget id).Idle g P none others := by
  rw [Session.forget]
  split
  next => exact h
  next t _ =>
    split
    · exact h.remove t
    · have same : (s.tasks.map fun u => if u.id = id then { u with isKept := false } else u).map
          (·.phase) = s.phases := by
        rw [List.map_map]
        refine List.map_congr_left fun u _ => ?_
        dsimp only [Function.comp]
        split <;> rfl
      exact h.of rfl rfl (same ▸ List.Sublist.refl _)

/-- A task that is new waits for its first turn, but its pulse has not begun. -/
theorem Idle.put (h : s.Idle g P none others) (fresh : t.phase.running? = none)
    (unbegun : t.phase.waiting? = none) : (s.put t).Idle g P none others where
  graph := h.graph
  lasts := h.lasts
  idle := by
    rw [phases_put]
    refine List.forall_mem_append.mpr ⟨fun phase member => ?_, List.forall_mem_singleton.mpr fresh⟩
    exact h.idle phase ((phases_without_sublist s t).subset member)
  holds := by
    rw [waiting_put, unbegun, Option.toList_none, List.append_nil]
    refine h.lasts.fewer h.holds (List.Sublist.subperm ?_)
    exact ((phases_without_sublist s t).filterMap _).append (List.Sublist.refl _)

theorem Idle.spawn (h : s.Idle g P none others) (root : NodeId) :
    (s.spawn root).1.Idle g P none others := by
  have added : { (s.addToken {}).1 with created := s.created + 1 }.Idle g P none others :=
    (h.addToken {}).of rfl rfl (List.Sublist.refl _)
  exact (added.put (t := { phase := .starting root, .. }) rfl rfl).enqueue _

/-! ## Turns of tasks -/

theorem Idle.onTurn (h : s.Idle g P none others) (head : s.queue.head?.bind s.task? = some t) :
    s.OnTurn g P others t where
  graph := h.graph
  lasts := h.lasts
  head := head
  idle phase member := h.idle phase ((phases_without_sublist s t).subset member)
  holds := by
    obtain ⟨id, _, found⟩ := Option.bind_eq_some_iff.mp head
    have member : t ∈ s.tasks := List.mem_of_find?_eq_some found
    rw [h.idle _ (List.mem_map_of_mem member), ← List.append_assoc]
    exact h.lasts.fewer h.holds ((subperm_of_mem member).append (.refl _))

/-- A session in which tasks have turns: somebody runs, or nobody does. -/
def InTurns (g : Graph) (P : Stage → Prop) (others : List Machine) (s : Session) : Prop :=
  s.Idle g P none others ∨ ∃ t, s.OnTurn g P others t ∧ t.isRunning = true

theorem isRunning_eq_false_iff : t.isRunning = false ↔ t.phase.running? = none := by
  cases h : t.phase <;> simp [Task.isRunning, Phase.running?, h]

theorem task?_put (s : Session) (t : Task) : (s.put t).task? t.id = some t := by
  have others : (s.tasks.filter (·.id ≠ t.id)).find? (·.id = t.id) = none := by
    simp [List.find?_eq_none]
  rw [task?, put, List.find?_append, others]
  simp

theorem without_put (s : Session) (t : Task) : ((s.put t).without t).phases = (s.without t).phases := by
  simp [put, without, phases]

theorem OnTurn.heedShutDown (h : s.OnTurn g P others t) (before : World) :
    (s.heedShutDown before).OnTurn g P others t ∧
      (s.heedShutDown before).queue.head? = s.queue.head? := by
  have first (ids : List TaskId) : (s.queue ++ ids).head? = s.queue.head? := by
    obtain ⟨id, head, _⟩ := Option.bind_eq_some_iff.mp h.head
    rw [List.head?_append, head]
    rfl
  rw [Session.heedShutDown]
  split
  · refine ⟨⟨h.graph, h.lasts, ?_, h.idle, h.holds⟩, first _⟩
    exact (congrArg (·.bind s.task?) (first _)).trans h.head
  · exact ⟨h, rfl⟩

/-- A task that has moved and runs goes on with its turn. -/
theorem OnTurn.goesOn (h : s.OnTurn g P others t) {phase : Phase}
    (holds : P ⟨w, phase.running?, phase.waiting?.toList ++ ((s.without t).waiting ++ others)⟩) :
    ({ s with world := w }.put { t with phase }).OnTurn g P others { t with phase } where
  graph := h.graph
  lasts := h.lasts
  head := by
    obtain ⟨id, head, found⟩ := Option.bind_eq_some_iff.mp h.head
    obtain rfl : t.id = id := by simpa using List.find?_some found
    have queue : ({ s with world := w }.put { t with phase }).queue.head? = some t.id := head
    rw [queue]
    exact task?_put { s with world := w } { t with phase }
  idle := by
    rw [without_put]
    exact h.idle
  holds := by
    rw [waiting, without_put]
    exact holds

/-- A task that has moved and does not run leaves the turn to somebody else. -/
theorem OnTurn.leaves (h : s.OnTurn g P others t) {phase : Phase} (stops : phase.running? = none)
    (holds : P ⟨w, phase.running?, phase.waiting?.toList ++ ((s.without t).waiting ++ others)⟩) :
    ({ s with world := w }.put { t with phase }).Idle g P none others where
  graph := h.graph
  lasts := h.lasts
  idle := by
    rw [phases_put]
    exact List.forall_mem_append.mpr ⟨h.idle, List.forall_mem_singleton.mpr stops⟩
  holds := by
    rw [stops] at holds
    refine h.lasts.fewer holds (List.Perm.subperm ?_)
    rw [waiting_put, List.append_assoc]
    exact List.perm_append_comm_assoc ..

theorem Idle.endTurn (h : s.Idle g P none others) (stops : t.isRunning = false) :
    (s.endTurn t).Idle g P none others := by
  have left : { s with queue := s.queue.tail }.Idle g P none others := h.of rfl rfl (.refl _)
  rw [Session.endTurn, stops, if_neg Bool.false_ne_true]
  dsimp only
  split
  · exact left.remove t
  · exact left

/-- A task on its turn keeps it as long as it runs, and nobody runs afterwards. -/
theorem OnTurn.step? (h : s.OnTurn g P others t) (moves : s.step? = some s') :
    s'.Idle g P none others ∨
      (∃ t', s'.OnTurn g P others t' ∧ t'.isRunning = true) ∧ s'.queue.head? = s.queue.head? := by
  obtain rfl := h.graph
  rw [step?_eq h.head] at moves
  obtain rfl := Option.some.inj moves
  have moved := h.lasts.moveTask h.holds
  cases runs : { t with phase := (t.move s.graph s.world).2 : Task }.isRunning with
  | true =>
      obtain ⟨onTurn, first⟩ := (h.goesOn moved).heedShutDown s.world
      rw [endTurn, if_pos runs]
      exact .inr ⟨⟨_, onTurn, runs⟩, first⟩
  | false =>
      have idle := h.leaves (isRunning_eq_false_iff.mp runs) moved
      exact .inl ((idle.endTurn runs).heedShutDown _)

/-- One step of a session is part of some turn. -/
theorem InTurns.step? (h : s.InTurns g P others) (moves : s.step? = some s') :
    s'.Idle g P none others ∨ s'.InTurns g P others ∧ s'.queue.head? = s.queue.head? := by
  have onTurn {t : Task} (h : s.OnTurn g P others t) :
      s'.Idle g P none others ∨ s'.InTurns g P others ∧ s'.queue.head? = s.queue.head? :=
    (h.step? moves).imp_right fun ⟨runs, first⟩ => ⟨.inr runs, first⟩
  rcases h with idle | ⟨t, h, _⟩
  · cases head : s.queue.head?.bind s.task? with
    | some t => exact onTurn (idle.onTurn head)
    | none =>
        rw [Session.step?] at moves
        split at moves
        next => cases moves
        next id rest queue =>
          rw [queue, List.head?_cons, Option.bind_some] at head
          rw [head] at moves
          cases moves
          exact .inl (idle.of rfl rfl (.refl _))
  · exact onTurn h

/-- When tasks have had their turns, nobody runs. -/
theorem InTurns.haveTurns (h : s.InTurns g P others) (budget turns : Nat)
    (full : turns = 0 → s.Idle g P none others) :
    (s.haveTurns turns budget).Ensures (Idle g P none others) := by
  induction budget generalizing s turns with
  | zero =>
      cases turns with
      | zero => exact full rfl
      | succ turns => trivial
  | succ budget ih =>
      cases turns with
      | zero => exact full rfl
      | succ turns =>
          rw [Session.haveTurns]
          split
          next next moves =>
            -- A turn counts when the head of the queue has changed, and then nobody is left running.
            rcases h.step? moves with idle | ⟨inTurns, same⟩
            · exact ih (.inl idle) _ fun _ => idle
            · rw [if_pos same]
              exact ih inTurns _ fun none => absurd none (Nat.succ_ne_zero turns)
          next rests =>
            rcases h with idle | ⟨t, onTurn, _⟩
            · exact idle
            · have head := onTurn.head
              rw [step?_eq_none_iff.mp rests] at head
              cases head

/-! ## Waiting -/

theorem Idle.giveWay (h : s.Idle g P none others) (budget : Nat) :
    (s.giveWay budget).Ensures (Idle g P none others) :=
  (InTurns.haveTurns (.inl h) budget _ fun _ => h).andThen fun _ h => (h.enqueue _).beginTurn

theorem Idle.leaveTurn (h : s.Idle g P none others) (budget : Nat) :
    (s.leaveTurn budget).Ensures (Idle g P none others) := by
  rw [Session.leaveTurn]
  split
  · exact h.giveWay budget
  · exact h

theorem Idle.settle (h : s.Idle g P none others) (budget : Nat) :
    (s.settle budget).Ensures (Idle g P none others) := by
  induction budget generalizing s with
  | zero => trivial
  | succ budget ih =>
      apply (h.giveWay budget).andThen
      intro s h
      split
      · exact h
      · exact ih h

theorem Idle.waitUntil (h : s.Idle g P none others) (canGoOn : Session → Bool) (deadline? : Option Nat)
    (budget : Nat) : (waitUntil canGoOn deadline? budget s).Ensures (Idle g P none others) := by
  induction budget generalizing s with
  | zero => trivial
  | succ budget ih =>
      rw [Session.waitUntil]
      split
      · exact h
      · apply (h.giveWay budget).andThen
        intro s h
        split
        · exact h
        · split
          next s' resumes => exact ih (h.resume? resumes)
          next => trivial

theorem Idle.sleep (h : s.Idle g P none others) (budget milliseconds : Nat) :
    (s.sleep budget milliseconds).Ensures (Idle g P none others) :=
  (h.leaveTurn budget).andThen fun _ h => (h.waitUntil _ _ budget).andThen fun _ h => h.endWait

theorem Idle.join (h : s.Idle g P none others) (budget : Nat) (id : TaskId) :
    (s.join budget id).Ensures fun (s, _) => s.Idle g P none others := by
  refine (h.leaveTurn budget).andThen fun _ h => (h.waitUntil _ _ budget).andThen fun s h => ?_
  split
  next t result _ => exact h.endWait.remove t
  next => trivial

/-! ## Pulses in the host's turn -/

/-- A machine of the host waits with the host and gets its turn again. -/
theorem Idle.resume (h : s.Idle g P none (m :: others)) : s.Idle g P (some m) others :=
  ⟨h.graph, h.lasts, h.idle, h.lasts.resumes (h.lasts.fewer h.holds List.perm_middle.symm.subperm)⟩

theorem Idle.runInTurn (h : s.Idle g P (some m) others) (budget : Nat) :
    (runInTurn budget s m).Ensures fun (s, _) => s.Idle g P none others := by
  induction budget generalizing s m with
  | zero => trivial
  | succ budget ih =>
      obtain rfl := h.graph
      have moved := h.lasts.moves h.holds
      rw [Session.runInTurn]
      split
      next w m' progress =>
        rw [progress] at moved
        have runs : { s with world := w }.Idle s.graph P (some m') others := ⟨rfl, h.lasts, h.idle, moved⟩
        exact ih (runs.heedShutDown _)
      next w m' progress =>
        rw [progress] at moved
        have waits : { s with world := w }.Idle s.graph P none (m' :: others) :=
          ⟨rfl, h.lasts, h.idle, h.lasts.fewer moved List.perm_middle.subperm⟩
        exact (waits.giveWay budget).andThen fun s h => ih h.resume
      next w milliseconds m' progress =>
        rw [progress] at moved
        have waits : { s with world := w }.Idle s.graph P none (m' :: others) :=
          ⟨rfl, h.lasts, h.idle, h.lasts.fewer moved List.perm_middle.subperm⟩
        exact (waits.waitUntil _ _ budget).andThen fun s h => ih h.resume
      next w result progress =>
        rw [progress] at moved
        exact ⟨rfl, h.lasts, h.idle, moved⟩

theorem Idle.triggerWith (h : s.Idle g P none others) (budget : Nat) (root : NodeId) (token : TokenId) :
    (s.triggerWith budget root token).Ensures fun (s, _) => s.Idle g P none others := by
  obtain rfl := h.graph
  rw [Session.triggerWith]
  split
  next e _ => exact h.giveUp token
  next r triggerable =>
    have begun : { s with world := (Machine.start s.graph s.world root token).1 }.Idle s.graph P
        (some (Machine.start s.graph s.world root token).2) others :=
      ⟨rfl, h.lasts, h.idle, h.lasts.starts h.holds triggerable token⟩
    exact (begun.runInTurn budget).andThen fun told h => h.giveUp token

theorem Idle.trigger (h : s.Idle g P none others) (budget : Nat) (root : NodeId) :
    (s.trigger budget root).Ensures fun (s, _) => s.Idle g P none others :=
  (h.addToken {}).triggerWith budget root _

theorem Idle.triggerAll (h : s.Idle g P none others) (budget : Nat) (roots : List NodeId) :
    (s.triggerAll budget roots).Ensures fun (s, _) => s.Idle g P none others := by
  induction roots generalizing s with
  | nil => exact h
  | cons n rest ih =>
      apply (h.trigger budget n).andThen
      intro (s, result) h
      cases result with
      | error e => exact h
      | ok report => exact (ih h).andThen fun (s, reports) h => h

/-! ## What hosts ask for -/

theorem Idle.host (h : s.Idle g (g.Attainable w₀) none others) (changes : g.HostChanges s.world w) :
    { s with world := w }.Idle g (g.Attainable w₀) none others :=
  ⟨h.graph, h.lasts, h.idle, h.holds.host changes⟩

theorem Idle.cancel (h : s.Idle g (g.Attainable w₀) none others) (id : TaskId) : (s.cancel id).Idle g (g.Attainable w₀) none others := by
  rw [Session.cancel]
  split
  · exact Idle.enqueue (h.host (.cancel _)) _
  · exact h

theorem Idle.shutDown (h : s.Idle g (g.Attainable w₀) none others) : s.shutDown.Idle g (g.Attainable w₀) none others :=
  Idle.heedShutDown (h.host .shutDown) _

theorem Idle.resetState (h : s.Idle g (g.Attainable w₀) none others) : s.resetState.Idle g (g.Attainable w₀) none others := by
  obtain rfl := h.graph
  exact h.host .resetState

theorem Idle.operate (h : s.Idle g (g.Attainable w₀) none others) (budget : Nat) (operation : Operation) :
    (s.operate budget operation).Ensures fun (s, _) => s.Idle g (g.Attainable w₀) none others := by
  cases operation with
  | trigger root => exact (h.trigger budget root).andThen fun (s, result) h => h
  | triggerWith root token =>
      exact ((h.addToken token).triggerWith budget root _).andThen fun (s, result) h => h
  | update => exact (h.triggerAll budget _).andThen fun (s, result) h => h
  | spawn root => exact h.spawn root
  | join task => exact (h.join budget task).andThen fun (s, result) h => h
  | forget task => exact h.forget task
  | cancel task => exact h.cancel task
  | shutDown => exact h.shutDown
  | resetState => exact h.resetState
  | sleep milliseconds => exact (h.sleep budget milliseconds).andThen fun s h => h
  | settle => exact (h.settle budget).andThen fun s h => h

theorem Idle.operateAll (h : s.Idle g (g.Attainable w₀) none others) (budget : Nat) (operations : List Operation) :
    (s.operateAll budget operations).Ensures fun (s, _) => s.Idle g (g.Attainable w₀) none others := by
  induction operations generalizing s with
  | nil => exact h
  | cons operation rest ih =>
      exact (h.operate budget operation).andThen fun (s, result) h =>
        (ih h).andThen fun (s, results) h => h

/-- When a host has been told all that it has asked for, no task has the turn. -/
theorem idle_of_operateAll {budget : Nat} {operations : List Operation}
    {results : List (Except PulseError (List Report))}
    (answers : Session.operateAll budget { graph := g, world := w } operations = .answer (s, results)) :
    s.Idle g (g.Attainable w) none [] := by
  have start : Idle g (g.Attainable w) none [] { graph := g, world := w } :=
    ⟨rfl, g.attainable_lasts w, List.forall_mem_nil _, [], .refl _, .refl⟩
  have ensures := start.operateAll budget operations
  rwa [answers] at ensures

end Session

end FlowGraph
