import FlowGraph.Proofs.Queueing
import FlowGraph.Proofs.Succession

/-!
# Sessions in step

A session with a past and one without it go on in step: the same tasks stand in the queue, the clocks move by
the same times, and the host waits for as long. Shutting down is the one thing for which the past has to be
looked at. It goes through the seats, and whoever has been cancelled before and still has a seat changes the
order in which the others are told.
-/

namespace FlowGraph

namespace Waited

variable {α β γ δ : Type} {R : α → β → Prop} {S : γ → δ → Prop}

/-- Both waits end, with answers that stand in some relation, or the steps run out in both. -/
inductive Alike (R : α → β → Prop) : Waited α → Waited β → Prop where
  | answer {a b} (same : R a b) : Alike R (.answer a) (.answer b)
  | outOfSteps : Alike R .outOfSteps .outOfSteps

theorem Alike.andThen {w : Waited α} {v : Waited β} {f : α → Waited γ} {f' : β → Waited δ} (h : w.Alike R v)
    (next : ∀ {a b}, R a b → (f a).Alike S (f' b)) : (w.andThen f).Alike S (v.andThen f') := by
  cases h with
  | answer same => exact next same
  | outOfSteps => exact .outOfSteps

theorem Alike.mono {S : α → β → Prop} {w : Waited α} {v : Waited β} (h : w.Alike R v)
    (weaker : ∀ {a b}, R a b → S a b) : w.Alike S v := by
  cases h with
  | answer same => exact .answer (weaker same)
  | outOfSteps => exact .outOfSteps

end Waited

namespace Session

variable {s : Session} {t : Task}

theorem queue_endTurn (s : Session) (t : Task) :
    (s.endTurn t).queue = if t.isRunning then s.queue else s.queue.tail := by
  rw [endTurn]
  split
  · rfl
  · dsimp only
    split <;> rfl

theorem isShutDown_endTurn (s : Session) (t : Task) :
    (s.endTurn t).world.isShutDown = s.world.isShutDown := by
  rw [endTurn]
  split
  · rfl
  · dsimp only
    split
    · exact World.isShutDown_giveUp ..
    · rfl

theorem queue_forget (s : Session) (id : TaskId) : (s.forget id).queue = s.queue := by
  rw [forget]
  split
  · rfl
  · split <;> rfl

theorem wake_singleton (s : Session) (token : TokenId) :
    s.wake [token] = s.enqueue (s.tasks.filter (·.alarm? = some token)) := by
  rw [wake, List.flatMap_singleton]

theorem spawn_eq (s : Session) (root : NodeId) :
    (s.spawn root).1 = ((s.addToken {}).1.start root (s.addToken {}).2).enqueue
      [⟨⟨s.created⟩, (s.addToken {}).2, .starting root, true⟩] :=
  rfl

/-- There is nothing to heed if the graph has been shut down before or is not. -/
theorem heedShutDown_of_same {before : World} (same : s.world.isShutDown = before.isShutDown) :
    s.heedShutDown before = s := by
  rw [heedShutDown, same, Bool.and_not_self, if_neg Bool.false_ne_true]

end Session

/-- The host has been told the same, but for ids and times. -/
inductive SameReports : Except PulseError (List Report) → Except PulseError (List Report) → Prop where
  | ok {reports reports'} (twins : List.Forall₂ Report.Twin reports reports') :
      SameReports (.ok reports) (.ok reports')
  | error {e e'} (twin : e.Twin e') : SameReports (.error e) (.error e')

theorem SameOutcome.single {result result' : Except PulseError Report} (h : SameOutcome result result') :
    SameReports (result.map ([·])) (result'.map ([·])) := by
  cases h with
  | ok twin => exact .ok (.cons twin .nil)
  | error twin => exact .error twin

theorem SameReports.cons {reports reports' : Except PulseError (List Report)} {r r' : Report}
    (h : SameReports reports reports') (twin : r.Twin r') :
    SameReports (reports.map (r :: ·)) (reports'.map (r' :: ·)) := by
  cases h with
  | ok twins => exact .ok (.cons twin twins)
  | error twin => exact .error twin

/-- The same operation if so many tasks came before. -/
def Session.Operation.after (tasks : Nat) : Session.Operation → Session.Operation
  | .join task => .join (task.after tasks)
  | .forget task => .forget (task.after tasks)
  | .cancel task => .cancel (task.after tasks)
  | operation => operation

namespace World

variable {w v : World}

/-- Nobody who is not cancelled is passed over. -/
theorem round_append {front : List TokenId} (live : ∀ t ∈ front, w.isCancelled t = false)
    (rest : List TokenId) : w.round (front ++ rest) = front ++ w.round rest := by
  induction front with
  | nil => rfl
  | cons t front ih =>
      have first := live t List.mem_cons_self
      rw [List.cons_append, round, first, if_neg Bool.false_ne_true,
        ih fun u member => live u (List.mem_cons_of_mem _ member), List.cons_append]

/-- A round goes the same way under other names. -/
theorem round_map {name : TokenId → TokenId} (same : ∀ t, w.isCancelled (name t) = v.isCancelled t)
    (seats : List TokenId) : w.round (seats.map name) = (v.round seats).map name := by
  fun_induction round v seats with
  | case1 => rw [List.map_nil, round]
  | case2 t rest cancelled ih =>
      rw [List.map_cons, round, same, if_pos cancelled, ← ih, List.getLast?_map, ← List.map_dropLast,
        List.map_append]
      cases rest.getLast? <;> rfl
  | case3 t rest live ih => rw [List.map_cons, round, same, if_neg live, ih, List.map_cons]

end World

namespace Past

/-- Nobody who still has a seat has been cancelled. -/
def Calm (o : Past) : Prop :=
  ∀ seat ∈ o.seats, ∀ token, o.tokens[seat.index]? = some token → token.isCancelled = false

variable {o : Past} {g : Graph} {down : Prop} {s f s' f' : Session} {w v : World} {t u : Task}

/-! ## Tasks that wait -/

namespace Tasks

theorem isRunning (h : o.Tasks t u) : t.isRunning = u.isRunning := by
  have phases := h.phase
  rw [Task.isRunning, Task.isRunning]
  generalize t.phase = p, u.phase = q at phases
  cases phases <;> rfl

theorem isResting (h : o.Tasks t u) : t.isResting = u.isResting := by
  have phases := h.phase
  rw [Task.isResting, Task.isResting]
  generalize t.phase = p, u.phase = q at phases
  cases phases <;> rfl

theorem deadline? (h : o.Tasks t u) : Option.Rel o.SameTime t.deadline? u.deadline? := by
  have phases := h.phase
  rw [Task.deadline?, Task.deadline?]
  generalize t.phase = p, u.phase = q at phases
  cases phases with
  | sleeping time => exact .some time
  | _ => exact .none

theorem alarm? (h : o.Tasks t u) : t.alarm? = u.alarm?.map o.token := by
  have phases := h.phase
  rw [Task.alarm?, Task.alarm?]
  generalize t.phase = p, u.phase = q at phases
  cases phases with
  | sleeping _ machines => exact congrArg some machines.token
  | _ => rfl

end Tasks

theorem ids_eq {tasks tasks' : List Task} (same : List.Forall₂ o.Tasks tasks tasks') :
    tasks.map (·.id) = (tasks'.map (·.id)).map o.task := by
  induction same with
  | nil => rfl
  | cons first _ ih => simp only [List.map_cons, first.id, ih]

/-- A task that has ended neither rests nor sleeps. -/
theorem inert_of_isEnded (ended : t.isEnded = true) :
    t.isResting = false ∧ t.deadline? = none ∧ ∀ token, decide (t.alarm? = some token) = false := by
  obtain ⟨id, token, phase, isKept⟩ := t
  cases phase <;> first | exact ⟨rfl, rfl, fun _ => rfl⟩ | cases ended

namespace Sessions

/-- The same tasks pass a test that no task of the past does. -/
theorem filter (h : o.Sessions g down s f) {p p' : Task → Bool}
    (old : ∀ t, t.isEnded = true → p t = false) (same : ∀ {t u}, o.Tasks t u → p t = p' u) :
    List.Forall₂ o.Tasks (s.tasks.filter p) (f.tasks.filter p') := by
  obtain ⟨later, eq, tasks⟩ := h.tasks
  rw [eq, List.filter_append, List.filter_eq_nil_iff.mpr fun t member => ?_, List.nil_append]
  · exact List.rel_filter (fun t u h => by simp only [same h]) tasks
  · rw [old t (o.ended t member)]
    exact Bool.false_ne_true

/-- The same tasks sleep on a token. -/
theorem sleepers (h : o.Sessions g down s f) (token : TokenId) :
    List.Forall₂ o.Tasks (s.tasks.filter (·.alarm? = some (o.token token)))
      (f.tasks.filter (·.alarm? = some token)) := by
  refine h.filter (fun t ended => (inert_of_isEnded ended).2.2 _) fun {t u} same => ?_
  rw [same.alarm?]
  cases u.alarm? <;> simp [TokenId.after_inj]

/-- Nobody sleeps on a token of the past. -/
theorem sleepers_of_past (h : o.Sessions g down s f) {token : TokenId}
    (early : token.index < o.tokens.length) : s.tasks.filter (·.alarm? = some token) = [] := by
  have none : List.Forall₂ o.Tasks (s.tasks.filter (·.alarm? = some token))
      (f.tasks.filter fun _ => false) := by
    refine h.filter (fun t ended => (inert_of_isEnded ended).2.2 _) fun {t u} same => ?_
    rw [same.alarm?]
    refine decide_eq_false fun sleeps => ?_
    obtain ⟨u, _, rfl⟩ := Option.map_eq_some_iff.mp sleeps
    exact Nat.not_lt.mpr (Nat.le_add_right ..) early
  simpa using none

theorem endTurn (h : o.Sessions g down s f) (same : o.Tasks t u) :
    o.Sessions g down (s.endTurn t) (f.endTurn u) := by
  have left := h.setQueue s.queue.tail f.queue.tail
  rw [Session.endTurn, Session.endTurn, same.isRunning, same.isEnded, same.isKept]
  split
  · exact h
  · dsimp only
    split
    · exact left.remove same
    · exact left

end Sessions

theorem SameTime.le_iff {time time' now now' : Nat} (h : o.SameTime time time') (h' : o.SameTime now now') :
    time ≤ now ↔ time' ≤ now' := by
  simp only [SameTime] at h h'
  omega

theorem Worlds.live_seats (h : o.Worlds g w v) (calm : o.Calm) (awake : w.isShutDown = false) :
    ∀ t ∈ o.seats, w.isCancelled t = false := by
  intro t member
  have token := List.getElem?_eq_getElem (o.seated t member)
  rw [World.isCancelled, h.tokens, List.getElem?_append_left (o.seated t member), token, awake]
  simpa using calm t member _ token

/-- Those of the tokens that are told that are not of the past are told in the same order. -/
theorem Worlds.told (h : o.Worlds g w v) (calm : o.Calm) (awake : w.isShutDown = false) :
    w.told.filter (o.tokens.length ≤ ·.index) = v.told.map o.token := by
  have live := h.live_seats calm awake
  have early : o.seats.filter (o.tokens.length ≤ ·.index) = [] := by
    refine List.filter_eq_nil_iff.mpr fun t member => ?_
    simpa using o.seated t member
  have late (seats : List TokenId) :
      (seats.map o.token).filter (o.tokens.length ≤ ·.index) = seats.map o.token := by
    refine List.filter_eq_self.mpr fun t member => ?_
    obtain ⟨u, _, rfl⟩ := List.mem_map.mp member
    simp [TokenId.after]
  have seats : w.seats.reverse = v.seats.reverse.map o.token ++ o.seats.reverse := by
    rw [h.seats, List.reverse_append, List.map_reverse]
  have reached : (v.seats.reverse.map o.token).dropWhile w.isCancelled =
      (v.seats.reverse.dropWhile v.isCancelled).map o.token := by
    rw [List.dropWhile_map]
    simp only [Function.comp_def, h.isCancelled]
  cases waits : v.seats.reverse.dropWhile v.isCancelled with
  | nil =>
      have nobody : v.told = [] := by rw [World.told, waits]
      rw [nobody, List.map_nil, List.filter_eq_nil_iff]
      intro t told
      obtain ⟨sits, uncancelled⟩ := World.mem_told.mp told
      rcases List.mem_append.mp (h.seats ▸ sits) with old | new
      · simpa using o.seated t old
      · obtain ⟨u, sat, rfl⟩ := List.mem_map.mp new
        have told : u ∈ v.told := World.mem_told.mpr ⟨sat, h.isCancelled u ▸ uncancelled⟩
        rw [nobody] at told
        cases told
  | cons last others =>
      have others' : (others.map o.token ++ o.seats.reverse).reverse =
          o.seats ++ others.reverse.map o.token := by simp
      rw [World.told, World.told, seats, List.dropWhile_append, reached, waits]
      simp only [List.map_cons, List.isEmpty_cons, Bool.false_eq_true, if_false, List.cons_append, others']
      rw [World.round_append live, World.round_map h.isCancelled,
        List.filter_cons_of_pos (by simp [TokenId.after]), List.filter_append, early, List.nil_append, late]

/-- The first of some times is the same on both clocks. -/
theorem SameTime.min? {times times' : List Nat} (same : List.Forall₂ o.SameTime times times') :
    Option.Rel o.SameTime times.min? times'.min? := by
  cases same with
  | nil => exact .none
  | cons first rest =>
      rw [List.min?_cons', List.min?_cons']
      refine .some (List.rel_foldl (fun a a' same b b' same' => ?_) first rest)
      simp only [SameTime] at same same' ⊢
      omega

/-! ## Sessions in step -/

/-- A session with a past and one without, where the same tasks stand in the queue. -/
structure InStep (o : Past) (g : Graph) (down : Prop) (s f : Session) : Prop extends
    o.Sessions g down s f where
  queue : s.queue = f.queue.map o.task
  regular : down ∨ f.Regular

/-- What the host is told, with a past and without. -/
def Told (o : Past) (g : Graph) (down : Prop) {α β : Type} (R : α → β → Prop) (told : Session × α)
    (told' : Session × β) : Prop :=
  o.InStep g down told.1 told'.1 ∧ R told.2 told'.2

namespace InStep

theorem sameTasks (h : o.InStep g down s f) (sessions : o.Sessions g down s' f') (queue : s'.queue = s.queue)
    (queue' : f'.queue = f.queue) (tasks : f'.tasks = f.tasks) : o.InStep g down s' f' where
  toSessions := sessions
  queue := by rw [queue, queue', h.queue]
  regular := h.regular.imp_right fun r =>
    ⟨tasks ▸ r.distinct, queue' ▸ r.once, by rw [queue', tasks]; exact r.live⟩

theorem enqueue (h : o.InStep g down s f) {tasks tasks' : List Task}
    (same : List.Forall₂ o.Tasks tasks tasks') (regular : down ∨ (f.enqueue tasks').Regular) :
    o.InStep g down (s.enqueue tasks) (f.enqueue tasks') where
  toSessions := h.toSessions.enqueue _ _
  queue := by
    have stands (id : TaskId) : s.queue.contains (o.task id) = f.queue.contains id := by
      simp [h.queue, TaskId.after_inj]
    rw [Session.enqueue, Session.enqueue, ids_eq same, List.filter_map, List.map_append, h.queue]
    simp only [Function.comp_def, ← h.queue, stands]
  regular := regular

theorem enqueue_filter (h : o.InStep g down s f) {p p' : Task → Bool}
    (inert : ∀ t, t.isEnded = true → p t = false) (inert' : ∀ t, t.isEnded = true → p' t = false)
    (same : ∀ {t u}, o.Tasks t u → p t = p' u) :
    o.InStep g down (s.enqueue (s.tasks.filter p)) (f.enqueue (f.tasks.filter p')) :=
  h.enqueue (h.filter inert same) (h.regular.imp_right (·.enqueue_filter inert'))

theorem rouse (h : o.InStep g down s f) : o.InStep g down s.rouse f.rouse := by
  have resting := h.filter (fun t ended => (inert_of_isEnded ended).1) fun same => same.isResting
  exact h.enqueue (List.rel_reverse resting) (h.regular.imp_right (·.rouse))

theorem setClock (h : o.InStep g down s f) {now now' : Nat} (time : o.SameTime now now') :
    o.InStep g down (s.setClock now) (f.setClock now') := by
  have set := h.sameTasks (h.setTime time) rfl rfl rfl
  have inert (now : Nat) (t : Task) (ended : t.isEnded = true) : t.deadline?.any (· ≤ now) = false := by
    rw [(inert_of_isEnded ended).2.1]
    rfl
  refine set.enqueue_filter (inert now) (inert now') fun {t u} same => ?_
  have deadlines := same.deadline?
  generalize t.deadline? = d, u.deadline? = d' at deadlines
  cases deadlines with
  | none => rfl
  | some same => exact decide_eq_decide.mpr (same.le_iff time)

/-- A move of the host's own pulse leaves the tasks alone. -/
theorem setWorld (h : o.InStep g down s f) (worlds : o.Worlds g w v) (observed : g.ObservedTyped w)
    (awake : w.isShutDown = s.world.isShutDown) :
    o.InStep g down { s with world := w } { f with world := v } := by
  refine h.sameTasks (h.toSessions.setWorld worlds observed ?_) rfl rfl rfl
  rw [← worlds.isShutDown, awake, h.worlds.isShutDown]

theorem cancel (h : o.InStep g down s f) (id : TaskId) :
    o.InStep g down (s.cancel (o.task id)) (f.cancel id) := by
  rw [Session.cancel, Session.cancel]
  rcases h.task?_cases id with ⟨absent, absent'⟩ | ⟨t, _, u, _, found, found', _, same⟩
  · rw [absent, absent']
    exact h
  · have cancelled := h.sameTasks (h.toSessions.cancel u.token) rfl rfl rfl
    rw [found, found']
    dsimp only
    rw [same.token, Session.wake_singleton, Session.wake_singleton]
    refine cancelled.enqueue (cancelled.sleepers u.token) (cancelled.regular.imp_right fun r => ?_)
    exact r.enqueue_filter fun t ended => (inert_of_isEnded ended).2.2 _

theorem addToken (h : o.InStep g down s f) (token : Token) :
    o.InStep g down (s.addToken token).1 (f.addToken token).1 :=
  h.sameTasks (h.toSessions.addToken token) rfl rfl rfl

theorem giveUp (h : o.InStep g down s f) (t : TokenId) :
    o.InStep g down (s.giveUp (o.token t)) (f.giveUp t) :=
  h.sameTasks (h.toSessions.giveUp t) rfl rfl rfl

theorem beginTurn (h : o.InStep g down s f) : o.InStep g down s.beginTurn f.beginTurn :=
  h.sameTasks h.toSessions.beginTurn rfl rfl rfl

theorem endWait (h : o.InStep g down s f) : o.InStep g down s.endWait f.endWait :=
  h.sameTasks h.toSessions.endWait rfl rfl rfl

theorem forget (h : o.InStep g down s f) (id : TaskId) :
    o.InStep g down (s.forget (o.task id)) (f.forget id) where
  toSessions := h.toSessions.forget id
  queue := by rw [Session.queue_forget, Session.queue_forget, h.queue]
  regular := h.regular.imp_right (·.forget id)

/-- The task of a pulse that has ended is removed. -/
theorem remove (h : o.InStep g down s f) (same : o.Tasks t u) (member : u ∈ f.tasks)
    (ended : u.isEnded = true) : o.InStep g down (s.remove t) (f.remove u) where
  toSessions := h.toSessions.remove same
  queue := h.queue
  regular := h.regular.imp_right fun r => r.remove (r.not_mem_queue member ended)

theorem spawn (h : o.InStep g down s f) (root : NodeId) :
    o.InStep g down (s.spawn root).1 (f.spawn root).1 := by
  have named : (s.addToken {}).2 = o.token (f.addToken {}).2 := (h.worlds.addToken {}).2
  have added := h.addToken {}
  have task : o.Tasks ⟨⟨s.created⟩, (s.addToken {}).2, .starting root, true⟩
      ⟨⟨f.created⟩, (f.addToken {}).2, .starting root, true⟩ :=
    ⟨congrArg TaskId.mk h.created, named, .starting root, rfl⟩
  have begun : o.InStep g down ((s.addToken {}).1.start root (s.addToken {}).2)
      ((f.addToken {}).1.start root (f.addToken {}).2) := by
    refine { named ▸ added.start root (f.addToken {}).2 with queue := h.queue, regular := ?_ }
    exact added.regular.imp_right fun r => Session.Regular.put ⟨r.distinct, r.once, r.live⟩ fun _ => rfl
  rw [Session.spawn_eq, Session.spawn_eq]
  refine begun.enqueue (.cons task .nil) (begun.regular.imp_right fun r => ?_)
  refine r.enqueue (List.nodup_singleton _) fun t member => ?_
  rw [List.mem_singleton.mp member]
  exact ⟨List.mem_append_right _ (List.mem_singleton_self _), rfl⟩

theorem queue_isEmpty (h : o.InStep g down s f) : s.queue.isEmpty = f.queue.isEmpty := by
  rw [h.queue, List.isEmpty_map]

/-- Tokens of the past wake nobody. -/
theorem wake (h : o.InStep g down s f) (may : down) {tokens tokens' : List TokenId}
    (same : tokens.filter (o.tokens.length ≤ ·.index) = tokens'.map o.token) :
    o.InStep g down (s.wake tokens) (f.wake tokens') := by
  have heard (tokens : List TokenId) : (tokens.flatMap fun token => s.tasks.filter (·.alarm? = some token)) =
      (tokens.filter (o.tokens.length ≤ ·.index)).flatMap fun token =>
        s.tasks.filter (·.alarm? = some token) := by
    induction tokens with
    | nil => rfl
    | cons token rest ih =>
        rw [List.flatMap_cons, List.filter_cons, ih]
        split
        next => rw [List.flatMap_cons]
        next early => rw [h.sleepers_of_past (by simpa using early), List.nil_append]
  have woken : List.Forall₂ o.Tasks
      (tokens'.flatMap fun token => s.tasks.filter (·.alarm? = some (o.token token)))
      (tokens'.flatMap fun token => f.tasks.filter (·.alarm? = some token)) := by
    clear same
    induction tokens' with
    | nil => exact .nil
    | cons token rest ih => exact List.rel_append (h.sleepers token) ih
  rw [Session.wake, Session.wake, heard, same, List.flatMap_map]
  exact h.enqueue woken (.inl may)

/-- Shutting down wakes the same tasks in the same order if nobody of the past is found cancelled. -/
theorem shutDown (h : o.InStep g down s f) (may : down) (calm : o.Calm) :
    o.InStep g down s.shutDown f.shutDown := by
  have closed := h.sameTasks (h.toSessions.shutDown may) rfl rfl rfl
  rw [Session.shutDown, Session.shutDown, Session.heedShutDown, Session.heedShutDown, h.worlds.isShutDown]
  cases already : f.world.isShutDown with
  | true =>
      rw [Bool.not_true, Bool.and_false, Bool.and_false, if_neg Bool.false_ne_true, if_neg Bool.false_ne_true]
      exact closed
  | false =>
      have told := h.worlds.told calm (h.worlds.isShutDown.trans already)
      exact closed.wake may told

/-- The clock moves to the same moment, or somebody can move without. -/
theorem resume? (h : o.InStep g down s f) {d d' : Option Nat} (deadline : Option.Rel o.SameTime d d') :
    Option.Rel (o.InStep g down) (s.resume? d) (f.resume? d') := by
  obtain ⟨later, eq, tasks⟩ := h.tasks
  have old : o.tasks.filterMap (·.deadline?) = [] :=
    List.filterMap_eq_nil_iff.mpr fun t member => (inert_of_isEnded (o.ended t member)).2.1
  have deadlines : List.Forall₂ o.SameTime (d.toList ++ s.tasks.filterMap (·.deadline?))
      (d'.toList ++ f.tasks.filterMap (·.deadline?)) := by
    rw [eq, List.filterMap_append, old, List.nil_append]
    refine List.rel_append ?_ (List.rel_filterMap (fun t u same => same.deadline?) tasks)
    cases deadline with
    | none => exact .nil
    | some same => exact .cons same .nil
  have first := SameTime.min? deadlines
  rw [Session.resume?, Session.resume?, h.queue_isEmpty]
  split
  · generalize (d.toList ++ s.tasks.filterMap (·.deadline?)).min? = now,
      (d'.toList ++ f.tasks.filterMap (·.deadline?)).min? = now' at first
    cases first with
    | none => exact .none
    | some time => exact .some (h.setClock time)
  · exact .some h

theorem resetState (h : o.InStep g down s f) : o.InStep g down s.resetState f.resetState :=
  h.sameTasks h.toSessions.resetState rfl rfl rfl

theorem head_iff (h : o.InStep g down s f) (h' : o.InStep g down s' f') :
    s'.queue.head? = s.queue.head? ↔ f'.queue.head? = f.queue.head? := by
  rw [h.queue, h'.queue, List.head?_map, List.head?_map]
  exact (Option.map_injective fun _ _ => TaskId.after_inj.mp).eq_iff

section

variable (catalogue : g.FromCatalogue)

include catalogue

theorem step? (h : o.InStep g down s f) : Option.Rel (o.InStep g down) s.step? f.step? := by
  cases waits : f.queue with
  | nil =>
      have waits' : s.queue = [] := by rw [h.queue, waits, List.map_nil]
      rw [Session.step?_eq_none_iff.mpr waits, Session.step?_eq_none_iff.mpr waits']
      exact .none
  | cons id rest =>
      have waits' : s.queue = o.task id :: rest.map o.task := by rw [h.queue, waits, List.map_cons]
      rcases h.task?_cases id with ⟨absent, absent'⟩ | ⟨t, member, u, member', found, found', named, same⟩
      · simp only [Session.step?, waits, waits', absent, absent']
        refine .some { h.setQueue _ _ with queue := rfl, regular := h.regular.imp_right fun r => ?_ }
        exact r.setQueue (waits ▸ List.sublist_cons_self ..)
      · obtain ⟨moved, put⟩ := h.moveTask catalogue same member member'
        have awake : (t.move s.graph s.world).1.isShutDown = s.world.isShutDown := by
          rw [h.sound.graph, Task.isShutDown_move (h.sound.tasks t member)]
        have awake' : (u.move f.graph f.world).1.isShutDown = f.world.isShutDown :=
          put.worlds.isShutDown.symm.trans (awake.trans h.worlds.isShutDown)
        rw [Session.step?_eq (by rw [waits', List.head?_cons, Option.bind_some, found]),
          Session.step?_eq (by rw [waits, List.head?_cons, Option.bind_some, found']),
          Session.heedShutDown_of_same ((Session.isShutDown_endTurn ..).trans awake),
          Session.heedShutDown_of_same ((Session.isShutDown_endTurn ..).trans awake')]
        refine .some { put.endTurn moved with queue := ?_, regular := h.regular.imp_right fun r => ?_ }
        · rw [Session.queue_endTurn, Session.queue_endTurn, moved.isRunning]
          simp only [Session.put, h.queue]
          split
          · rfl
          · exact List.map_tail.symm
        · have turn : f.queue = u.id :: rest := by rw [waits, named]
          exact Session.Regular.endTurn ⟨r.distinct, r.once, r.live⟩ turn

/-! ## Waiting -/

theorem haveTurns (h : o.InStep g down s f) (turns budget : Nat) :
    (s.haveTurns turns budget).Alike (o.InStep g down) (f.haveTurns turns budget) := by
  induction budget generalizing s f turns with
  | zero =>
      cases turns with
      | zero => exact .answer h
      | succ turns => exact .outOfSteps
  | succ budget ih =>
      cases turns with
      | zero => exact .answer h
      | succ turns =>
          have moves := h.step? catalogue
          rw [Session.haveTurns, Session.haveTurns]
          generalize s.step? = next, f.step? = next' at moves
          cases moves with
          | none => exact .answer h
          | some same =>
              simp only [h.head_iff same]
              exact ih same _

theorem giveWay (h : o.InStep g down s f) (budget : Nat) :
    (s.giveWay budget).Alike (o.InStep g down) (f.giveWay budget) :=
  (h.haveTurns catalogue _ budget).andThen fun h => .answer h.rouse.beginTurn

theorem leaveTurn (h : o.InStep g down s f) (budget : Nat) :
    (s.leaveTurn budget).Alike (o.InStep g down) (f.leaveTurn budget) := by
  rw [Session.leaveTurn, Session.leaveTurn, h.worlds.isTurnFull]
  split
  · exact h.giveWay catalogue budget
  · exact .answer h

theorem settle (h : o.InStep g down s f) (budget : Nat) :
    (s.settle budget).Alike (o.InStep g down) (f.settle budget) := by
  induction budget generalizing s f with
  | zero => exact .outOfSteps
  | succ budget ih =>
      refine (h.giveWay catalogue budget).andThen fun {s f} h => ?_
      rw [h.queue_isEmpty]
      split
      · exact .answer h
      · exact ih h

theorem waitUntil (h : o.InStep g down s f) {canGoOn canGoOn' : Session → Bool}
    (same : ∀ {s f}, o.InStep g down s f → canGoOn s = canGoOn' f) {d d' : Option Nat}
    (deadline : Option.Rel o.SameTime d d') (budget : Nat) :
    (Session.waitUntil canGoOn d budget s).Alike (o.InStep g down)
      (Session.waitUntil canGoOn' d' budget f) := by
  induction budget generalizing s f with
  | zero => exact .outOfSteps
  | succ budget ih =>
      rw [Session.waitUntil, Session.waitUntil, same h]
      split
      · exact .answer h
      · refine (h.giveWay catalogue budget).andThen fun {s f} h => ?_
        rw [same h]
        split
        · exact .answer h
        · have resumes := h.resume? deadline
          generalize s.resume? d = next, f.resume? d' = next' at resumes
          cases resumes with
          | none => exact .outOfSteps
          | some h => exact ih h

theorem sleep (h : o.InStep g down s f) (budget milliseconds : Nat) :
    (s.sleep budget milliseconds).Alike (o.InStep g down) (f.sleep budget milliseconds) := by
  have time := h.worlds.pass milliseconds
  refine (h.leaveTurn catalogue budget).andThen fun h =>
    (h.waitUntil catalogue (fun {s f} h => ?_) (.some time) budget).andThen fun h => .answer h.endWait
  exact decide_eq_decide.mpr (time.le_iff h.worlds.time)

theorem join (h : o.InStep g down s f) (budget : Nat) (id : TaskId) :
    (s.join budget (o.task id)).Alike (o.Told g down SameOutcome) (f.join budget id) := by
  refine (h.leaveTurn catalogue budget).andThen fun h =>
    (h.waitUntil catalogue (fun {s f} h => ?_) .none budget).andThen fun {s f} h => ?_
  · have found := h.task? id
    rw [Session.isEnded, Session.isEnded]
    generalize s.task? (o.task id) = t?, f.task? id = u? at found
    cases found with
    | none => rfl
    | some same => exact same.isEnded
  · rcases h.task?_cases id with ⟨absent, absent'⟩ | ⟨t, _, u, member', found, found', _, same⟩
    · rw [absent, absent']
      exact .outOfSteps
    · have results := same.result?
      have ended : u.isEnded = u.result?.isSome := rfl
      rw [found, found', Option.bind_some, Option.bind_some]
      generalize t.result? = result, u.result? = result' at results ended
      cases results with
      | none => exact .outOfSteps
      | some outcome => exact .answer ⟨h.endWait.remove same member' ended, outcome⟩

/-! ## Pulses in the host's turn -/

theorem runInTurn (h : o.InStep g down s f) {m n : Machine} (machines : o.Machines m n) (under : g.UnderWay m)
    (budget : Nat) :
    (Session.runInTurn budget s m).Alike (o.Told g down SameOutcome) (Session.runInTurn budget f n) := by
  induction budget generalizing s f m n with
  | zero => exact .outOfSteps
  | succ budget ih =>
      obtain ⟨graph, world, tasks, queue, created⟩ := s
      obtain ⟨graph', world', tasks', queue', created'⟩ := f
      obtain rfl : graph = g := h.sound.graph
      obtain rfl : graph' = graph := h.graph
      have moves := machines.step h.worlds under
      have lands := under.lands catalogue h.sound.observed
      have awake := under.isShutDown_step world
      rw [Session.runInTurn, Session.runInTurn]
      dsimp only at moves lands awake ⊢
      generalize m.step graph' world = p, n.step graph' world' = q at moves lands awake
      cases moves with
      | running worlds machines =>
          have awake' := worlds.isShutDown.symm.trans (awake.trans h.worlds.isShutDown)
          dsimp only
          rw [Session.heedShutDown_of_same awake, Session.heedShutDown_of_same awake']
          exact ih (h.setWorld worlds lands.1 awake) machines lands.2
      | resting worlds machines =>
          exact ((h.setWorld worlds lands.1 awake).giveWay catalogue budget).andThen fun h =>
            ih h machines lands.2
      | sleeping worlds milliseconds machines =>
          have time := worlds.pass milliseconds
          refine ((h.setWorld worlds lands.1 awake).waitUntil catalogue (fun {s f} h => ?_) (.some time)
            budget).andThen fun h => ih h machines lands.2
          rw [machines.token, h.worlds.isCancelled, decide_eq_decide.mpr (time.le_iff h.worlds.time)]
      | ended worlds same => exact .answer ⟨h.setWorld worlds lands.1 awake, same⟩

theorem triggerWith (h : o.InStep g down s f) (budget : Nat) (root : NodeId) (token : TokenId) :
    (s.triggerWith budget root (o.token token)).Alike (o.Told g down SameOutcome)
      (f.triggerWith budget root token) := by
  obtain ⟨graph, world, tasks, queue, created⟩ := s
  obtain ⟨graph', world', tasks', queue', created'⟩ := f
  obtain rfl : graph = g := h.sound.graph
  obtain rfl : graph' = graph := h.graph
  rw [Session.triggerWith, Session.triggerWith]
  dsimp only
  cases triggerable : graph'.root root with
  | error e => exact .answer ⟨h.giveUp token, .error (.refl e)⟩
  | ok r =>
      obtain ⟨worlds, machines⟩ := Machines.start graph' h.worlds root token
      have underWay := Graph.underWay_start catalogue triggerable world (o.token token)
      have begun := h.setWorld worlds (h.sound.observed.of_observed rfl) rfl
      exact (begun.runInTurn catalogue machines underWay budget).andThen fun told =>
        .answer ⟨told.1.giveUp token, told.2⟩

theorem triggerNew (h : o.InStep g down s f) (budget : Nat) (root : NodeId) (token : Token) :
    ((s.addToken token).1.triggerWith budget root (s.addToken token).2).Alike (o.Told g down SameOutcome)
      ((f.addToken token).1.triggerWith budget root (f.addToken token).2) := by
  have named : (s.addToken token).2 = o.token (f.addToken token).2 := (h.worlds.addToken token).2
  rw [named]
  exact (h.addToken token).triggerWith catalogue budget root _

theorem trigger (h : o.InStep g down s f) (budget : Nat) (root : NodeId) :
    (s.trigger budget root).Alike (o.Told g down SameOutcome) (f.trigger budget root) :=
  h.triggerNew catalogue budget root {}

theorem triggerAll (h : o.InStep g down s f) (budget : Nat) (roots : List NodeId) :
    (s.triggerAll budget roots).Alike (o.Told g down SameReports) (f.triggerAll budget roots) := by
  induction roots generalizing s f with
  | nil => exact .answer ⟨h, .ok .nil⟩
  | cons n rest ih =>
      refine (h.trigger catalogue budget n).andThen fun {told told'} ⟨h, same⟩ => ?_
      obtain ⟨s, result⟩ := told
      obtain ⟨f, result'⟩ := told'
      cases same with
      | error twin => exact .answer ⟨h, .error twin⟩
      | ok twin => exact (ih h).andThen fun ⟨h, same⟩ => .answer ⟨h, same.cons twin⟩

theorem update (h : o.InStep g down s f) (budget : Nat) :
    (s.update budget).Alike (o.Told g down SameReports) (f.update budget) := by
  rw [Session.update, Session.update, h.graph_eq]
  exact h.triggerAll catalogue budget _

theorem operate (h : o.InStep g down s f) (budget : Nat) (operation : Session.Operation)
    (may : operation = .shutDown → down ∧ o.Calm) :
    (s.operate budget (operation.after o.created)).Alike (o.Told g down (Option.Rel SameReports))
      (f.operate budget operation) := by
  cases operation with
  | trigger root =>
      exact (h.trigger catalogue budget root).andThen fun ⟨h, same⟩ => .answer ⟨h, .some same.single⟩
  | triggerWith root token =>
      exact (h.triggerNew catalogue budget root token).andThen fun ⟨h, same⟩ => .answer ⟨h, .some same.single⟩
  | update => exact (h.update catalogue budget).andThen fun ⟨h, same⟩ => .answer ⟨h, .some same⟩
  | spawn root => exact .answer ⟨h.spawn root, .none⟩
  | join task =>
      exact (h.join catalogue budget task).andThen fun ⟨h, same⟩ => .answer ⟨h, .some same.single⟩
  | forget task => exact .answer ⟨h.forget task, .none⟩
  | cancel task => exact .answer ⟨h.cancel task, .none⟩
  | shutDown => exact .answer ⟨h.shutDown (may rfl).1 (may rfl).2, .none⟩
  | resetState => exact .answer ⟨h.resetState, .none⟩
  | sleep milliseconds =>
      exact (h.sleep catalogue budget milliseconds).andThen fun h => .answer ⟨h, .none⟩
  | settle => exact (h.settle catalogue budget).andThen fun h => .answer ⟨h, .none⟩

/-- Whatever a host does, it is told the same, with a past and without. -/
theorem operateAll (h : o.InStep g down s f) (budget : Nat) (operations : List Session.Operation)
    (may : .shutDown ∈ operations → down ∧ o.Calm) :
    (s.operateAll budget (operations.map (·.after o.created))).Alike
      (o.Told g down (List.Forall₂ SameReports)) (f.operateAll budget operations) := by
  induction operations generalizing s f with
  | nil => exact .answer ⟨h, .nil⟩
  | cons operation rest ih =>
      have operated := h.operate catalogue budget operation fun same => may (same ▸ List.mem_cons_self)
      refine operated.andThen fun {told told'} ⟨h, same⟩ => ?_
      refine (ih h fun later => may (List.mem_cons_of_mem _ later)).andThen fun ⟨h, all⟩ => .answer ⟨h, ?_⟩
      refine List.rel_append ?_ all
      generalize told.2 = result, told'.2 = result' at same
      cases same with
      | none => exact .nil
      | some same => exact .cons same .nil

end

end InStep

end Past

end FlowGraph
