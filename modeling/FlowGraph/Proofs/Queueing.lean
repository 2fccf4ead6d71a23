import Mathlib.Data.List.Nodup
import FlowGraph.Session.Basic

/-!
# Who stands in the queue

Tasks join the queue when they can move and leave it when their turns end, and each of them stands in it only
once. So nobody stands in the queue whose pulse has ended, and where all pulses have ended nobody stands in it
at all.
-/

namespace FlowGraph.Session

/-- Whose turn it is moves. -/
theorem step?_eq {s : Session} {t : Task} (head : s.queue.head?.bind s.task? = some t) :
    s.step? = some ((({ s with world := (t.move s.graph s.world).1 }.put
      { t with phase := (t.move s.graph s.world).2 }).endTurn
      { t with phase := (t.move s.graph s.world).2 }).heedShutDown s.world) := by
  obtain ⟨id, first, found⟩ := Option.bind_eq_some_iff.mp head
  obtain ⟨rest, queue⟩ := List.head?_eq_some_iff.mp first
  rw [Session.step?, queue]
  dsimp only
  rw [found]

/-- Tasks have different names, and only those that have not ended stand in the queue, each of them once. -/
structure Regular (s : Session) : Prop where
  distinct : (s.tasks.map (·.id)).Nodup
  once : s.queue.Nodup
  live : ∀ id ∈ s.queue, ∃ t ∈ s.tasks, t.id = id ∧ t.isEnded = false

namespace Regular

variable {s : Session} {t : Task}

theorem queue_eq_nil (h : s.Regular) (ended : ∀ t ∈ s.tasks, t.isEnded = true) : s.queue = [] := by
  refine List.eq_nil_iff_forall_not_mem.mpr fun id member => ?_
  obtain ⟨t, task, _, live⟩ := h.live id member
  rw [ended t task] at live
  cases live

/-- Whoever has ended is not in the queue. -/
theorem not_mem_queue (h : s.Regular) (member : t ∈ s.tasks) (ended : t.isEnded = true) : t.id ∉ s.queue := by
  intro waits
  obtain ⟨u, other, same, live⟩ := h.live t.id waits
  rw [List.inj_on_of_nodup_map h.distinct other member same, ended] at live
  cases live

theorem setQueue (h : s.Regular) {queue : List TaskId} (fewer : queue.Sublist s.queue) :
    { s with queue }.Regular where
  distinct := h.distinct
  once := fewer.nodup h.once
  live id member := h.live id (fewer.subset member)

theorem enqueue (h : s.Regular) {tasks : List Task} (distinct : (tasks.map (·.id)).Nodup)
    (live : ∀ t ∈ tasks, t ∈ s.tasks ∧ t.isEnded = false) : (s.enqueue tasks).Regular where
  distinct := h.distinct
  once := by
    refine List.Nodup.append h.once (distinct.filter _) fun id here there => ?_
    have new := (List.mem_filter.mp there).2
    simp [here] at new
  live id member := by
    rcases List.mem_append.mp member with older | new
    · exact h.live id older
    · obtain ⟨t, joins, rfl⟩ := List.mem_map.mp (List.mem_filter.mp new).1
      exact ⟨t, (live t joins).1, rfl, (live t joins).2⟩

/-- Tasks that pass a test may join the queue if no task that has ended passes it. -/
theorem enqueue_filter (h : s.Regular) {p : Task → Bool} (inert : ∀ t, t.isEnded = true → p t = false) :
    (s.enqueue (s.tasks.filter p)).Regular := by
  refine h.enqueue ((List.filter_sublist.map _).nodup h.distinct) fun t member => ?_
  obtain ⟨task, passes⟩ := List.mem_filter.mp member
  refine ⟨task, Bool.eq_false_iff.mpr fun ended => ?_⟩
  rw [inert t ended] at passes
  cases passes

theorem rouse (h : s.Regular) : s.rouse.Regular := by
  refine h.enqueue ?_ fun t member => ?_
  · rw [List.map_reverse, List.nodup_reverse]
    exact (List.filter_sublist.map _).nodup h.distinct
  · obtain ⟨task, rests⟩ := List.mem_filter.mp (List.mem_reverse.mp member)
    refine ⟨task, ?_⟩
    obtain ⟨id, token, phase, isKept⟩ := t
    cases phase <;> first | rfl | cases rests

/-- A task may end only when it has left the queue. -/
theorem put (h : s.Regular) (stays : t.id ∈ s.queue → t.isEnded = false) : (s.put t).Regular where
  distinct := by
    rw [Session.put, List.map_append, List.map_singleton]
    refine List.Nodup.append ((List.filter_sublist.map _).nodup h.distinct) (List.nodup_singleton _) ?_
    simp
  once := h.once
  live id member := by
    by_cases same : id = t.id
    · exact ⟨t, List.mem_append_right _ (List.mem_singleton_self t), same.symm, stays (same ▸ member)⟩
    · obtain ⟨u, task, rfl, live⟩ := h.live id member
      exact ⟨u, List.mem_append_left _ (List.mem_filter.mpr ⟨task, by simpa using same⟩), rfl, live⟩

theorem remove (h : s.Regular) (left : t.id ∉ s.queue) : (s.remove t).Regular where
  distinct := (List.filter_sublist.map _).nodup h.distinct
  once := h.once
  live id member := by
    obtain ⟨u, task, rfl, live⟩ := h.live id member
    refine ⟨u, List.mem_filter.mpr ⟨task, ?_⟩, rfl, live⟩
    have other : u.id ≠ t.id := fun same => left (same ▸ member)
    simpa using other

theorem forget (h : s.Regular) (id : TaskId) : (s.forget id).Regular := by
  rw [Session.forget]
  split
  next => exact h
  next t found =>
    split
    next ended => exact h.remove (h.not_mem_queue (List.mem_of_find?_eq_some found) ended)
    next =>
      have same (t : Task) : (if t.id = id then { t with isKept := false } else t).id = t.id := by
        split <;> rfl
      refine ⟨?_, h.once, fun id' member => ?_⟩
      · simp only [List.map_map, Function.comp_def, same]
        exact h.distinct
      · obtain ⟨u, task, rfl, live⟩ := h.live id' member
        refine ⟨_, List.mem_map_of_mem task, same u, ?_⟩
        split <;> exact live

/-- A task that has had the turn moves and, unless it goes on, leaves the queue. -/
theorem endTurn (h : s.Regular) {rest : List TaskId} (turn : s.queue = t.id :: rest) :
    ((s.put t).endTurn t).Regular := by
  have away : t.id ∉ rest := (List.nodup_cons.mp (turn ▸ h.once)).1
  rw [Session.endTurn]
  split
  next runs =>
    refine h.put fun _ => ?_
    obtain ⟨id, token, phase, isKept⟩ := t
    cases phase <;> first | rfl | cases runs
  next =>
    have left : { s with queue := rest }.Regular := h.setQueue (turn ▸ List.sublist_cons_self ..)
    have queue : (s.put t).queue.tail = rest := by rw [Session.put, turn, List.tail_cons]
    have moved : { s.put t with queue := rest }.Regular := left.put fun waits => absurd waits away
    rw [queue]
    dsimp only
    split
    · exact moved.remove away
    · exact moved

end Regular

end FlowGraph.Session
