import FlowGraph.Proofs.Currency
import FlowGraph.Proofs.Nesting

/-!
# Nothing is computed without need

The memo of a pulse loses values in one way only: something is published, and the values of the nodes that
derive from it go, all of them and no others. A node that has been computed therefore has all its outputs in
the memo until something that it derives from is published, however often and by whomever it is read. It is
computed again only when one of its outputs is missing, so not before. The nodes may be arbitrary, and
they may run pulses within pulses: each pulse has a memo of its own.
-/

namespace FlowGraph

/-! ## What derives from an output -/

namespace Graph

/-- A pure node is reachable from an output along value connections through pure nodes only. -/
inductive Derives (g : Graph) (output : Port) : NodeId → Prop where
  | reads {n} (reads : g.Reads n output) : Derives g output n
  | feeds {k n} (derives : Derives g output k) (feeds : Blueprint.Feeds g.valueEdges k n)
      (pure : g.isPure n = true) : Derives g output n

variable {g : Graph} {n : NodeId} {output : Port}

theorem node_of_mem_outputs (member : output ∈ g.outputs n) : output.node = n := by
  rw [outputs] at member
  split at member
  · obtain ⟨_, _, rfl⟩ := List.mem_map.mp member
    rfl
  · cases member

theorem feeds_of_mem_consumers (consumer : n ∈ g.consumers output) :
    Blueprint.Feeds g.valueEdges output.node n := by
  obtain ⟨e, member, rfl⟩ := List.mem_map.mp consumer
  obtain ⟨edge, source⟩ := List.mem_filter.mp member
  exact ⟨e, edge, by rw [of_decide_eq_true source], rfl⟩

/-- Whatever a walk reaches derives from the output at which it started. -/
theorem derives_of_mem_walk {start : Port} {reached : List NodeId} {todo : List Port}
    (old : ∀ n ∈ reached, g.Derives start n)
    (follows : ∀ output ∈ todo, output = start ∨ g.Derives start output.node) :
    ∀ n ∈ g.walk reached todo, g.Derives start n := by
  fun_induction walk g reached todo with
  | case1 reached => exact old
  | case2 reached output todo none ih =>
      exact ih old fun o later => follows o (List.mem_cons_of_mem _ later)
  | case3 reached output todo some ih =>
      obtain ⟨here, later⟩ := List.forall_mem_cons.mp follows
      have fresh : ∀ n ∈ g.freshConsumers reached output, g.Derives start n := by
        intro n new
        obtain ⟨consumer, pure, _⟩ := mem_freshConsumers.mp new
        rcases here with rfl | derives
        · exact .reads ⟨consumer, pure⟩
        · exact .feeds derives (feeds_of_mem_consumers consumer) pure
      apply ih
      · exact List.forall_mem_append.mpr ⟨old, fresh⟩
      · refine List.forall_mem_append.mpr ⟨later, fun o member => ?_⟩
        obtain ⟨k, new, declared⟩ := List.mem_flatMap.mp member
        exact .inr (node_of_mem_outputs declared ▸ fresh k new)

/-- Connections lead from outputs that are declared. -/
theorem Built.mem_outputs (built : g.Built) {e : ValueEdge} (edge : e ∈ g.valueEdges) :
    e.source ∈ g.outputs e.source.node := by
  obtain ⟨name, config, calls, built⟩ := built
  obtain ⟨values, flows, valid, rfl⟩ := Blueprint.valid_of_build built
  obtain ⟨_, _, m, _, o, _, source, _, declared, _⟩ := valid.wired.exists_joins edge
  exact Declares.mem_outputs ⟨m, source.entry, declared.entry⟩

/-- The dependents of a published output are the nodes that derive from it. -/
theorem mem_dependents_iff (declared : ∀ e ∈ g.valueEdges, e.source ∈ g.outputs e.source.node)
    (driven : g.isPure output.node = false) : n ∈ g.dependents output ↔ g.Derives output n := by
  constructor
  · intro member
    simp only [dependents, driven, Bool.false_eq_true, if_false] at member
    have reached : n ∈ g.walk [] [output] := by simpa using (List.mem_filter.mp member).2
    refine derives_of_mem_walk (fun _ old => absurd old List.not_mem_nil) (fun o start => ?_) n reached
    exact .inl (List.mem_singleton.mp start)
  · intro derives
    induction derives with
    | reads reads => exact mem_dependents_of_reads driven reads
    | feeds _ feeds pure ih =>
        obtain ⟨e, edge, rfl, rfl⟩ := feeds
        refine mem_dependents_of_dependent ih (declared e edge) ⟨?_, pure⟩
        exact List.mem_map.mpr ⟨e, List.mem_filter.mpr ⟨edge, by simp⟩, rfl⟩

theorem Built.mem_dependents_iff (built : g.Built) (driven : g.isPure output.node = false) :
    n ∈ g.dependents output ↔ g.Derives output n :=
  Graph.mem_dependents_iff (fun _ edge => built.mem_outputs edge) driven

end Graph

/-! ## What is asked for in the course of a run -/

/-- The requests of a machine, each with the pulse that made it. -/
abbrev Log :=
  List (PulseId × EngineRequest)

namespace Log

/-- A node has been computed in a pulse, and nothing has been published since that it derives from. -/
def Stands (log : Log) (id : PulseId) (n : NodeId) : Prop :=
  ∃ before depth after, log = before ++ (id, .evaluate n depth) :: after ∧
    ∀ output v dependents, (id, .act (.publish output v dependents)) ∈ after → n ∉ dependents

variable {log : Log} {id : PulseId} {n : NodeId} {entry : PulseId × EngineRequest}

/-- A computation that stands after some entry either is that entry or stood before it. -/
theorem Stands.of_snoc (h : Stands (log ++ [entry]) id n) :
    (∃ depth, entry = (id, .evaluate n depth)) ∨
      Stands log id n ∧ ∀ output v dependents,
        entry = (id, .act (.publish output v dependents)) → n ∉ dependents := by
  obtain ⟨before, depth, after, eq, spared⟩ := h
  rcases after.eq_nil_or_concat with rfl | ⟨after, last, rfl⟩
  · obtain ⟨_, same⟩ := List.append_inj' eq rfl
    exact .inl ⟨depth, List.singleton_inj.mp same⟩
  · rw [List.concat_eq_append, ← List.cons_append, ← List.append_assoc] at eq
    obtain ⟨rfl, same⟩ := List.append_inj' eq rfl
    obtain rfl := List.singleton_inj.mp same
    rw [List.concat_eq_append] at spared
    refine .inr ⟨⟨before, depth, after, rfl, fun output v dependents member => ?_⟩, ?_⟩
    · exact spared output v dependents (List.mem_append_left _ member)
    · rintro output v dependents rfl
      exact spared output v dependents (List.mem_append_right _ (List.mem_singleton_self _))

/-- Nothing that another pulse asks for makes a computation stand. -/
theorem Stands.of_other (h : Stands (log ++ [entry]) id n) (other : entry.1 ≠ id) : Stands log id n := by
  rcases h.of_snoc with ⟨depth, rfl⟩ | ⟨stood, _⟩
  · exact absurd rfl other
  · exact stood

end Log

/-- A computation that stands after an entry other than a computation stood before it. -/
theorem Log.Stands.of_idle {log : Log} {id : PulseId} {n : NodeId} {entry : PulseId × EngineRequest}
    (h : Log.Stands (log ++ [entry]) id n) (idle : ∀ k depth, entry.2 ≠ .evaluate k depth) :
    log.Stands id n := by
  rcases h.of_snoc with ⟨depth, rfl⟩ | ⟨stood, _⟩
  · exact absurd rfl (idle n depth)
  · exact stood

/-- An action makes no computation stand. -/
theorem Log.Stands.of_act {log : Log} {id id' : PulseId} {n : NodeId} {a : Action}
    (h : Log.Stands (log ++ [(id', .act a)]) id n) : log.Stands id n :=
  h.of_idle nofun

namespace Machine

/-- The request that a machine makes next. -/
def asking? (m : Machine) : Option (PulseId × EngineRequest) :=
  match m.program with
  | .done () => none
  | .ask r _ => some (m.pulse.id, r)

/-- Some moves of a machine, with all that is asked for in them. In between others may do with the world
what they like, except that no pulse that has been started counts as not started again. -/
inductive Course (g : Graph) (w₀ : World) (m₀ : Machine) : Log → World → Machine → Prop where
  | refl : Course g w₀ m₀ [] w₀ m₀
  | others {log w w' m} (course : Course g w₀ m₀ log w m) (later : w.pulses ≤ w'.pulses) :
      Course g w₀ m₀ log w' m
  | move {log w w' m m'} (course : Course g w₀ m₀ log w m)
      (moves : (m.step g w).next? = some (w', m')) :
      Course g w₀ m₀ (log ++ m.asking?.toList) w' m'

end Machine

/-! ## What the memo has -/

namespace Table

variable {κ α : Type} [DecidableEq κ]

theorem contains_insertNew (t : Table κ α) (k j : κ) (v : α) :
    (t.insertNew k v).contains j = (t.contains j || decide (j = k)) := by
  rw [contains, get?_insertNew]
  split
  next same => simp [same]
  next differs => simp [differs, contains]

end Table

namespace Pulse

theorem contains_completeEvaluation (p : Pulse) (resting : List (Port × Value)) (o : Port) :
    (p.completeEvaluation resting).memo.contains o =
      (p.memo.contains o || decide (o ∈ resting.map Prod.fst)) := by
  rw [completeEvaluation]
  generalize hq : ({ p with evaluations := p.evaluations + 1 } : Pulse) = q
  have same : p.memo = q.memo := by rw [← hq]
  rw [same]
  clear hq same
  induction resting generalizing q with
  | nil => simp
  | cons e rest ih =>
      rw [List.foldl_cons, ih]
      change ((q.memo.insertNew e.1 e.2).contains o || _) = _
      simp only [Table.contains_insertNew, List.map_cons, List.mem_cons, Bool.decide_or, Bool.or_assoc]

/-- Publishing takes the values of the dependents out of the memo, and nothing else. -/
theorem get?_publish (p : Pulse) (output : Port) (v : Value) (dependents : List NodeId) (o : Port) :
    (p.publish output v dependents).memo.get? o =
      if o.node ∈ dependents then none else p.memo.get? o := by
  rw [publish, Table.get?_filterKeys]
  by_cases member : o.node ∈ dependents <;> simp [member]

end Pulse

theorem Action.id_perform (a : Action) (w : World) (p : Pulse) : (a.perform w p).2.2.id = p.id := by
  cases a with
  | completeEvaluation resting =>
      exact p.completeEvaluation_keeps (·.id) resting (fun _ _ => rfl) fun _ _ _ => rfl
  | _ => rfl

/-- Nothing that a pulse does starts one. -/
theorem Action.pulses_perform (a : Action) (w : World) (p : Pulse) :
    (a.perform w p).2.1.pulses = w.pulses := by
  cases a with
  | observe input type v =>
      simp only [perform, World.observe]
      split <;> rfl
  | reset resets => exact w.reset_keeps (·.pulses) resets fun _ _ _ => rfl
  | _ => rfl

theorem World.pulses_giveUp (w : World) (t : TokenId) : (w.giveUp t).pulses = w.pulses := by
  rw [giveUp]
  split
  · split <;> rfl
  · rfl

namespace Graph

variable {g : Graph} {log log' : Log} {p p' : Pulse} {n : NodeId} {busy : List NodeId}
  {entry : PulseId × EngineRequest}

/-- Completing a node gives a value to every output that it has left without one. -/
theorem map_restingOutputs {m : Member} (member : g.member? n = some m) :
    (Engine.restingOutputs n m).map Prod.fst = g.outputs n := by
  have places : (m.descriptor.outputs.zipIdx.map Prod.snd).map (Port.mk n) =
      (List.range m.descriptor.outputs.length).map (Port.mk n) := by
    rw [List.zipIdx_map_snd, List.range_eq_range']
  rw [outputs, member, Engine.restingOutputs, List.map_map]
  rwa [List.map_map] at places

/-- What is known of the outputs of a node that is not being computed: the memo has all of them or none, and
all of them if the node's computation stands. -/
structure Whole (g : Graph) (log : Log) (p : Pulse) (n : NodeId) : Prop where
  allOrNone : (∀ o ∈ g.outputs n, p.memo.contains o = true) ∨
    ∀ o ∈ g.outputs n, p.memo.contains o = false
  stands : log.Stands p.id n → ∀ o ∈ g.outputs n, p.memo.contains o = true

theorem whole_of_all (all : ∀ o ∈ g.outputs n, p.memo.contains o = true) : g.Whole log p n :=
  ⟨.inl all, fun _ => all⟩

theorem Whole.of_same (h : g.Whole log p n) (id : p'.id = p.id)
    (same : ∀ o ∈ g.outputs n, p'.memo.contains o = p.memo.contains o)
    (stood : log'.Stands p.id n → log.Stands p.id n) : g.Whole log' p' n := by
  constructor
  · rcases h.allOrNone with all | none
    · exact .inl fun o member => (same o member).trans (all o member)
    · exact .inr fun o member => (same o member).trans (none o member)
  · intro stands o member
    rw [id] at stands
    exact (same o member).trans (h.stands (stood stands) o member)

/-- A plain action of one node leaves the outputs of the others whole. -/
theorem Whole.act (h : g.Whole log p n) {s : Scope} {a : Action} (plain : Engine.Plain g s (.act a))
    (other : g.isPure s.node = true → n ≠ s.node) (w : World) :
    g.Whole (log ++ [(p.id, .act a)]) (a.perform w p).2.2 n := by
  have stood (stands : Log.Stands (log ++ [(p.id, .act a)]) p.id n) : log.Stands p.id n :=
    stands.of_act
  cases a with
  | memoized output | completeEvaluation resting => exact plain.elim
  | memoize output v =>
      obtain ⟨here, pure⟩ := plain
      refine h.of_same rfl (fun o member => ?_) stood
      have differs : o ≠ output := by
        rintro rfl
        exact other pure (node_of_mem_outputs member ▸ here)
      simp [Action.perform, Pulse.memoize, Table.contains_insertNew, differs]
  | publish output v dependents =>
      have found (o) (member : o ∈ g.outputs n) :
          (p.publish output v dependents).memo.get? o = if n ∈ dependents then none else p.memo.get? o := by
        rw [p.get?_publish, node_of_mem_outputs member]
      by_cases dependent : n ∈ dependents
      · refine ⟨.inr fun o member => ?_, fun stands => ?_⟩
        · simp [Action.perform, Table.contains, found o member, dependent]
        · rcases stands.of_snoc with ⟨depth, evaluates⟩ | ⟨_, spared⟩
          · cases evaluates
          · exact absurd dependent (spared output v dependents rfl)
      · refine h.of_same rfl (fun o member => ?_) stood
        simp [Action.perform, Table.contains, found o member, dependent]
  | _ => exact h.of_same rfl (fun _ _ => rfl) stood

/-- The outputs of all pure nodes that are not being computed are whole. -/
def Tidy (g : Graph) (log : Log) (p : Pulse) (busy : List NodeId) : Prop :=
  ∀ n, g.isPure n = true → n ∉ busy → g.Whole log p n

theorem Tidy.of_idle (h : g.Tidy log p busy) (idle : ∀ k depth, entry.2 ≠ .evaluate k depth) :
    g.Tidy (log ++ [entry]) p busy := fun n pure free =>
  (h n pure free).of_same rfl (fun _ _ => rfl) fun stands => stands.of_idle idle

theorem Tidy.of_other (h : g.Tidy log p busy) (other : entry.1 ≠ p.id) :
    g.Tidy (log ++ [entry]) p busy := fun n pure free =>
  (h n pure free).of_same rfl (fun _ _ => rfl) fun stands => stands.of_other other

/-- A pulse in which nothing has been computed yet is tidy. -/
theorem tidy_of_new (empty : p.memo = ∅) (unlogged : ∀ entry ∈ log, entry.1 ≠ p.id) :
    g.Tidy log p busy := by
  intro n _ _
  refine ⟨.inr fun o _ => by rw [empty]; rfl, ?_⟩
  rintro ⟨before, depth, after, rfl, _⟩
  exact absurd rfl (unlogged _ (List.mem_append_right _ (List.mem_cons_self ..)))

end Graph

/-! ## A machine under way -/

/-- The node that is still to be completed, if there is one. -/
def Engine.Lookup.pending : Engine.Lookup → List NodeId
  | .computed n => [n]
  | .idle | .missing _ => []

namespace Machine

open Engine (Lookup Looks)

/-- The pulses that wait for another one were started before it, and each of them is tidy. -/
def Parked (g : Graph) (log : Log) : PulseId → List Caller → Prop
  | _, [] => True
  | id, .node .. :: callers => Parked g log id callers
  | id, .pulse outer s _ :: callers =>
    outer.id.number < id.number ∧ g.Tidy log outer (evaluating g s callers) ∧
      Parked g log outer.id callers

/-- A machine in whose pulses nothing is computed without need. -/
structure Thrifty (g : Graph) (log : Log) (w : World) (lookup : Lookup) (m : Machine) : Prop where
  nested : Nested g lookup m
  started : m.pulse.id.number ≤ w.pulses
  logged : ∀ entry ∈ log, entry.1.number ≤ w.pulses
  tidy : g.Tidy log m.pulse (lookup.pending ++ evaluating g m.scope m.callers)
  parked : Parked g log m.pulse.id m.callers

variable {g : Graph} {log : Log} {w w' : World} {m m' : Machine} {lookup : Lookup}
  {id : PulseId} {callers : List Caller} {entry : PulseId × EngineRequest}

/-- The pulses that wait have nothing to do with what a later one asks for. -/
theorem Parked.snoc (h : Parked g log id callers) (later : id.number ≤ entry.1.number) :
    Parked g (log ++ [entry]) id callers := by
  induction callers generalizing id with
  | nil => trivial
  | cons caller callers ih =>
      cases caller with
      | node s next => exact ih h later
      | pulse outer s next =>
          obtain ⟨earlier, tidy, rest⟩ := h
          refine ⟨earlier, tidy.of_other ?_, ih rest (by omega)⟩
          rintro same
          rw [same] at later
          omega

theorem evaluating_of_pure {s : Scope} (pure : g.isPure s.node = true) (callers : List Caller) :
    evaluating g s callers = s.node :: (callers.map (·.scope.node)).takeWhile g.isPure := by
  rw [evaluating, entered, List.takeWhile_cons, if_pos pure]

theorem evaluating_of_driven {s : Scope} (driven : g.isPure s.node = false) (callers : List Caller) :
    evaluating g s callers = [] := by
  rw [evaluating, entered, List.takeWhile_cons, driven]
  rfl

theorem pending_of_complete (complete : lookup.IsComplete) : lookup.pending = [] := by
  cases lookup with
  | computed n => exact complete.elim
  | idle | missing output => rfl

/-- What another machine goes on with when the one that it waits for has ended. -/
structure Resumes (g : Graph) (log : Log) (w : World) (id : PulseId) (w' : World) (m' : Machine) : Prop where
  earlier : m'.pulse.id.number < id.number
  pulses : w'.pulses = w.pulses
  tidy : g.Tidy log m'.pulse (evaluating g m'.scope m'.callers)
  parked : Parked g log m'.pulse.id m'.callers

theorem Parked.unwind (h : Parked g log id callers) {token : TokenId} {error : PulseError}
    (moves : (Machine.unwind w token error callers).next? = some (w', m')) :
    Resumes g log w id w' m' := by
  induction callers with
  | nil => cases moves
  | cons caller callers ih =>
      cases caller with
      | node s next => exact ih h moves
      | pulse outer s next =>
          obtain ⟨earlier, tidy, rest⟩ := h
          cases moves
          exact ⟨earlier, w.pulses_giveUp token, tidy, rest⟩

/-- A machine that is done goes back to its reader, which has to complete its node, to the node that has
fired, or to the pulse that waits for its own. -/
theorem Thrifty.leave {p : Pulse} {s : Scope} (h : Thrifty g log w lookup ⟨p, s, .done (), callers⟩)
    (moves : (Machine.leave w ⟨p, s, .done (), callers⟩).next? = some (w', m')) :
    Thrifty g log w' (lookupAfter g ⟨p, s, .done (), callers⟩) m' := by
  obtain ⟨nested, started, logged, tidy, parked⟩ := h
  have after := nested.leave moves
  have complete : lookup.IsComplete := nested.looks
  simp only [pending_of_complete complete, List.nil_append] at tidy
  cases nested.callers with
  | nil => cases moves
  | evaluation pure feeds later rest =>
      cases moves
      refine ⟨after, started, logged, ?_, parked⟩
      rw [evaluating_of_pure pure] at tidy
      simp only [lookupAfter, pure, if_true]
      exact tidy
  | activation driven source later rest =>
      cases moves
      refine ⟨after, started, logged, ?_, parked⟩
      rw [evaluating_of_driven driven] at tidy
      simp only [lookupAfter, driven, Bool.false_eq_true, if_false, evaluating_of_driven source]
      exact tidy
  | pulse driven later rest =>
      cases moves
      obtain ⟨earlier, waiting, rest⟩ := parked
      have pulses := w.pulses_giveUp p.token
      refine ⟨after, ?_, ?_, ?_, rest⟩
      · exact pulses ▸ Nat.le_trans (Nat.le_of_lt earlier) started
      · exact pulses ▸ logged
      · simp only [lookupAfter, driven, Bool.false_eq_true, if_false]
        exact waiting

/-- What an action leaves in the memo. -/
theorem Thrifty.act {p : Pulse} {s : Scope} {a : Action} {next : a.Reply → Engine Unit}
    (h : Thrifty g log w lookup ⟨p, s, .ask (.act a) next, callers⟩) :
    g.Tidy (log ++ [(p.id, .act a)]) (a.perform w p).2.2
      ((lookupAfter g ⟨p, s, .ask (.act a) next, callers⟩).pending ++ evaluating g s callers) := by
  obtain ⟨⟨holds, looks, nests⟩, _, _, tidy, _⟩ := h
  -- An action other than those of a lookup concerns the memo at the outputs of its own node only.
  have plain (plain : Engine.Plain g s (.act a)) (complete : lookup.IsComplete) :
      g.Tidy (log ++ [(p.id, .act a)]) (a.perform w p).2.2 (evaluating g s callers) := by
    simp only [pending_of_complete complete, List.nil_append] at tidy
    intro n isPure free
    refine (tidy n isPure free).act plain ?_ w
    rintro own rfl
    exact free (evaluating_of_pure own callers ▸ List.mem_cons_self ..)
  cases a with
  | memoized output =>
      obtain ⟨complete, _⟩ := looks
      simp only [pending_of_complete complete, List.nil_append] at tidy
      have found : (lookupAfter g ⟨p, s, .ask (.act (.memoized output)) next, callers⟩).IsComplete := by
        simp only [lookupAfter]
        split <;> trivial
      rw [pending_of_complete found]
      exact fun n pure free => (tidy n pure free).of_same rfl (fun _ _ => rfl) fun stands => stands.of_act
  | completeEvaluation resting =>
      obtain ⟨n, k, rfl, member, rfl, _⟩ := looks
      have filled (o : Port) : (p.completeEvaluation (Engine.restingOutputs n k)).memo.contains o =
          (p.memo.contains o || decide (o ∈ g.outputs n)) := by
        rw [p.contains_completeEvaluation, Graph.map_restingOutputs member]
      intro j isPure free
      by_cases same : j = n
      · subst same
        refine Graph.whole_of_all fun o declared => ?_
        rw [Action.perform, filled, decide_eq_true declared, Bool.or_true]
      · have whole := tidy j isPure (List.not_mem_cons_of_ne_of_not_mem same free)
        have id := Action.id_perform (.completeEvaluation (Engine.restingOutputs n k)) w p
        refine whole.of_same id (fun o declared => ?_) fun stands => stands.of_act
        have elsewhere : o ∉ g.outputs n := fun own =>
          same ((Graph.node_of_mem_outputs declared).symm.trans (Graph.node_of_mem_outputs own))
        rw [Action.perform, filled, decide_eq_false elsewhere, Bool.or_false]
  | _ => exact plain looks.2.1 looks.1

/-- A node that is being computed is not asked for: it would lie on itself. -/
theorem Nested.nodup_of_evaluate (built : g.Built) {p : Pulse} {s : Scope} {n : NodeId} {depth : Nat}
    {next : Unit → Engine Unit} (h : Nested g lookup ⟨p, s, .ask (.evaluate n depth) next, callers⟩) :
    (n :: evaluating g s callers).Nodup := by
  obtain ⟨holds, looks, nests⟩ := h
  obtain ⟨_, pure, feeds, later⟩ := looks
  have inside : Nests g n (.node s next :: callers) := .evaluation pure feeds later nests
  have nodup := Nests.nodup_evaluating (s := ⟨n, depth⟩) built inside
  rwa [evaluating_of_pure pure] at nodup

/-- Where nothing has been computed, nothing stands: a node is computed only if that is needed. -/
theorem Thrifty.not_stands (built : g.Built) {n : NodeId} {depth : Nat} {next : Unit → Engine Unit}
    (h : Thrifty g log w lookup m) (asks : m.program = .ask (.evaluate n depth) next) :
    ¬ log.Stands m.pulse.id n := by
  obtain ⟨p, s, program, callers⟩ := m
  obtain ⟨nested, _, _, tidy, _⟩ := h
  subst asks
  have free : n ∉ evaluating g s callers := (List.nodup_cons.mp (nested.nodup_of_evaluate built)).1
  obtain ⟨holds, looks, _⟩ := nested
  obtain ⟨⟨output, declared, rfl⟩, pure, _⟩ := looks
  intro stands
  have has := (tidy n pure free).stands stands output declared
  have missing : p.memo.get? output = none := holds
  rw [Table.contains, missing] at has
  cases has

/-- Every move of such a machine leads to such a machine. -/
theorem Thrifty.step (built : g.Built) (h : Thrifty g log w lookup m)
    (moves : (m.step g w).next? = some (w', m')) :
    Thrifty g (log ++ m.asking?.toList) w' (m.lookupAfter g) m' := by
  have nested := h.nested.step built moves
  obtain ⟨p, s, program, callers⟩ := m
  have logs {entry : PulseId × EngineRequest} {w' : World} (here : entry.1 = p.id)
      (later : w.pulses ≤ w'.pulses) : ∀ e ∈ log ++ [entry], e.1.number ≤ w'.pulses := by
    refine List.forall_mem_append.mpr ⟨fun e old => Nat.le_trans (h.logged e old) later, ?_⟩
    rintro e new
    rw [List.mem_singleton.mp new, here]
    exact Nat.le_trans h.started later
  cases program with
  | done =>
      rw [asking?, Option.toList_none, List.append_nil]
      exact h.leave moves
  | ask r next =>
      have parked : Parked g (log ++ [(p.id, r)]) p.id callers := h.parked.snoc (Nat.le_refl _)
      have started : p.id.number ≤ w.pulses := h.started
      have idle (complete : lookup.IsComplete) (idle : ∀ k depth, r ≠ .evaluate k depth) :
          g.Tidy (log ++ [(p.id, r)]) p (evaluating g s callers) := by
        have tidy := h.tidy
        rw [pending_of_complete complete] at tidy
        exact tidy.of_idle idle
      cases r with
      | act a =>
          have tidy := h.act
          have pulses := a.pulses_perform w p
          have id := a.id_perform w p
          cases moves
          refine ⟨nested, ?_, logs rfl (Nat.le_of_eq pulses.symm), tidy, ?_⟩
          · exact (congrArg PulseId.number id).trans_le (started.trans_eq pulses.symm)
          · exact (congrArg (Parked g _ · callers) id).mpr parked
      | evaluate n depth =>
          obtain ⟨⟨_, _, rfl⟩, pure, _⟩ := h.nested.looks
          have tidy : g.Tidy log p (evaluating g s callers) := h.tidy
          cases moves
          refine ⟨nested, started, logs rfl (Nat.le_refl _), ?_, parked⟩
          change g.Tidy _ p (evaluating g ⟨n, depth⟩ (.node s next :: callers))
          rw [evaluating_of_pure pure]
          intro k isPure free
          obtain ⟨differs, free⟩ := List.ne_and_not_mem_of_not_mem_cons free
          refine (tidy k isPure free).of_same rfl (fun _ _ => rfl) fun stands => ?_
          rcases stands.of_snoc with ⟨_, same⟩ | ⟨stood, _⟩
          · cases same
            exact absurd rfl differs
          · exact stood
      | activate n depth =>
          obtain ⟨complete, ⟨source, driven⟩, _⟩ := h.nested.looks
          have tidy := idle complete nofun
          rw [evaluating_of_driven source] at tidy
          cases moves
          refine ⟨nested, started, logs rfl (Nat.le_refl _), ?_, parked⟩
          change g.Tidy _ p (evaluating g ⟨n, depth⟩ (.node s next :: callers))
          rwa [evaluating_of_driven driven]
      | sleep milliseconds | rest =>
          have tidy := idle h.nested.looks.1 nofun
          cases moves
          exact ⟨nested, started, logs rfl (Nat.le_refl _), tidy, parked⟩
      | restart =>
          have tidy := idle h.nested.looks nofun
          cases moves
          exact ⟨nested, started, logs rfl (Nat.le_refl _), tidy, parked⟩
      | abort cause =>
          obtain ⟨earlier, pulses, tidy, rest⟩ := parked.unwind moves
          refine ⟨nested, ?_, logs rfl (Nat.le_of_eq pulses.symm), tidy, rest⟩
          exact pulses ▸ Nat.le_trans (Nat.le_of_lt earlier) started
      | pulse root =>
          have tidy := idle h.nested.looks.1 nofun
          have logged : ∀ e ∈ log ++ [(p.id, .pulse root)], e.1.number ≤ w.pulses :=
            logs rfl (Nat.le_refl _)
          cases moves
          have earlier : p.id.number < w.pulses + 1 := Nat.lt_succ_of_le started
          refine ⟨nested, Nat.le_refl _, logs rfl (Nat.le_succ _), ?_, earlier, tidy, parked⟩
          refine Graph.tidy_of_new rfl fun e member same => ?_
          have new : e.1.number = w.pulses + 1 := congrArg PulseId.number same
          exact absurd (logged e member) (by omega)

/-- The start of a pulse. -/
theorem thrifty_start (built : g.Built) (w : World) (root : NodeId) (token : TokenId) :
    Thrifty g [] (start g w root token).1 .idle (start g w root token).2 :=
  ⟨nested_start built w root token, Nat.le_refl _, nofun, Graph.tidy_of_new rfl nofun, trivial⟩

/-- Others may start pulses, but that is all that concerns a machine. -/
theorem Thrifty.later (h : Thrifty g log w lookup m) (later : w.pulses ≤ w'.pulses) :
    Thrifty g log w' lookup m :=
  ⟨h.nested, Nat.le_trans h.started later, fun e old => Nat.le_trans (h.logged e old) later, h.tidy, h.parked⟩

end Machine

/-- What has been asked for by now is what was needed: values are published at outputs of driven nodes and
evict what derives from them, and no node was computed while a computation of it stood. -/
structure Log.Economical (g : Graph) (log : Log) : Prop where
  published : ∀ id output v dependents, (id, .act (.publish output v dependents)) ∈ log →
    g.isPure output.node = false ∧ dependents = g.dependents output
  needed : ∀ before id n depth, before ++ [(id, .evaluate n depth)] <+: log → ¬ Log.Stands before id n

namespace Log

open Machine (Thrifty Course)

variable {g : Graph} {log : Log} {w : World} {m : Machine} {lookup : Engine.Lookup}

/-- What such a machine asks for next is needed. -/
theorem Economical.snoc (built : g.Built) (h : Economical g log) (thrifty : Thrifty g log w lookup m) :
    Economical g (log ++ m.asking?.toList) := by
  cases asks : m.program with
  | done => simpa [Machine.asking?, asks] using h
  | ask r next =>
      have looks := thrifty.nested.looks
      rw [asks] at looks
      have entry : m.asking?.toList = [(m.pulse.id, r)] := by simp [Machine.asking?, asks]
      rw [entry]
      constructor
      · intro id output v dependents member
        rcases List.mem_append.mp member with old | new
        · exact h.published id output v dependents old
        · cases List.mem_singleton.mp new
          obtain ⟨here, driven, same⟩ := looks.2.1
          exact ⟨here ▸ driven, same⟩
      · intro before id n depth start
        rcases List.prefix_concat_iff.mp start with here | earlier
        · obtain ⟨rfl, same⟩ := List.append_inj' here rfl
          cases List.singleton_inj.mp same
          exact thrifty.not_stands built asks
        · exact h.needed before id n depth earlier

/-- At every point of every run a machine is thrifty and has asked for what it needed. -/
theorem economical_of_course (built : g.Built) {w₀ : World} {root : NodeId} {token : TokenId}
    (course : Course g (Machine.start g w₀ root token).1 (Machine.start g w₀ root token).2 log w m) :
    (∃ lookup, Thrifty g log w lookup m) ∧ Economical g log := by
  induction course with
  | refl =>
      refine ⟨⟨_, Machine.thrifty_start built w₀ root token⟩, nofun, fun before id n depth start => ?_⟩
      simp at start
  | others _ later ih =>
      obtain ⟨⟨lookup, thrifty⟩, economical⟩ := ih
      exact ⟨⟨lookup, thrifty.later later⟩, economical⟩
  | move _ moves ih =>
      obtain ⟨⟨lookup, thrifty⟩, economical⟩ := ih
      exact ⟨⟨_, thrifty.step built moves⟩, economical.snoc built thrifty⟩

/-- Between two computations of a node something is published that it derives from. -/
theorem Economical.exists_publish (built : g.Built) (h : Economical g log) {before between after : Log}
    {id : PulseId} {n : NodeId} {depth depth' : Nat}
    (eq : log = before ++ (id, .evaluate n depth) :: between ++ (id, .evaluate n depth') :: after) :
    ∃ output v, (id, .act (.publish output v (g.dependents output))) ∈ between ∧
      g.isPure output.node = false ∧ g.Derives output n := by
  have start : (before ++ (id, .evaluate n depth) :: between) ++ [(id, .evaluate n depth')] <+: log :=
    ⟨after, by rw [eq]; simp⟩
  by_contra none
  refine h.needed _ id n depth' start ⟨before, depth, between, rfl, ?_⟩
  intro output v dependents member evicted
  have inLog : (id, .act (.publish output v dependents)) ∈ log := by
    rw [eq]
    simp [member]
  obtain ⟨driven, rfl⟩ := h.published id output v dependents inLog
  exact none ⟨output, v, member, driven, (built.mem_dependents_iff driven).mp evicted⟩

/-- An entry that asks for a node to be computed. -/
def computes (id : PulseId) (n : NodeId) : PulseId × EngineRequest → Bool
  | (id', .evaluate k _) => id' = id && k = n
  | _ => false

theorem of_computes {id : PulseId} {n : NodeId} {entry : PulseId × EngineRequest}
    (h : computes id n entry = true) : ∃ depth, entry = (id, .evaluate n depth) := by
  obtain ⟨id', r⟩ := entry
  cases r with
  | evaluate k depth =>
      obtain ⟨rfl, rfl⟩ : id' = id ∧ k = n := by simpa [computes] using h
      exact ⟨depth, rfl⟩
  | _ => cases h

/-- A node that derives from nothing that flow drives is computed once at most. -/
theorem Economical.length_computes_le (built : g.Built) (h : Economical g log) (id : PulseId) {n : NodeId}
    (free : ∀ output, g.isPure output.node = false → ¬ g.Derives output n) :
    (log.filter (computes id n)).length ≤ 1 := by
  cases found : log.filter (computes id n) with
  | nil => exact Nat.zero_le _
  | cons first others =>
      obtain ⟨before, rest, rfl, _, asked, more⟩ := List.filter_eq_cons_iff.mp found
      cases others with
      | nil => exact Nat.le_refl _
      | cons second others =>
          obtain ⟨between, after, rfl, _, again, _⟩ := List.filter_eq_cons_iff.mp more
          obtain ⟨depth, rfl⟩ := of_computes asked
          obtain ⟨depth', rfl⟩ := of_computes again
          have eq : before ++ (id, .evaluate n depth) :: (between ++ (id, .evaluate n depth') :: after) =
              before ++ (id, .evaluate n depth) :: between ++ (id, .evaluate n depth') :: after := by simp
          obtain ⟨output, _, _, driven, derives⟩ := h.exists_publish built eq
          exact absurd derives (free output driven)

end Log

/-- What is done next where a node is still to be completed. -/
theorem Engine.Looks.completes {g : Graph} {s : Scope} {α : Type} {n : NodeId} {p : Engine α}
    (h : Engine.Looks g s (.computed n) p) :
    ∃ m next, g.member? n = some m ∧ p = .ask (.act (.completeEvaluation (restingOutputs n m))) next := by
  cases p with
  | done a => exact h.elim
  | ask r next =>
      cases r with
      | act a =>
          cases a with
          | completeEvaluation resting =>
              obtain ⟨_, m, same, member, rfl, _⟩ := h
              cases same
              exact ⟨m, next, member, rfl⟩
          | _ => exact h.1.elim
      | evaluate k depth =>
          obtain ⟨⟨_, _, missing⟩, _⟩ := h
          cases missing
      | restart => exact h.elim
      | _ => exact h.1.elim

namespace Machine

/-- The node whose outputs a machine completes next, as often as it has outputs. -/
def completing (m : Machine) : List NodeId :=
  match m.program with
  | .ask (.act (.completeEvaluation resting)) _ => resting.map (·.1.node)
  | _ => []

theorem mem_completing {g : Graph} {m : Machine} {lookup : Engine.Lookup}
    (looks : Engine.Looks g m.scope lookup m.program) {n : NodeId} (pending : n ∈ lookup.pending) {o : Port}
    (declared : o ∈ g.outputs n) : n ∈ m.completing := by
  cases lookup with
  | idle | missing output => cases pending
  | computed k =>
      obtain rfl := List.mem_singleton.mp pending
      obtain ⟨member, next, found, asks⟩ := looks.completes
      have own := Graph.node_of_mem_outputs declared
      rw [← Graph.map_restingOutputs found] at declared
      obtain ⟨entry, resting, rfl⟩ := List.mem_map.mp declared
      rw [completing, asks]
      exact List.mem_map.mpr ⟨entry, resting, own⟩

/-- The pulses that wait, each with the nodes that are being computed in it. -/
def waiting (g : Graph) : List Caller → List (Pulse × List NodeId)
  | [] => []
  | .node .. :: callers => waiting g callers
  | .pulse outer s _ :: callers => (outer, evaluating g s callers) :: waiting g callers

/-- The pulses of a machine, each with the nodes whose computation is not over in it. -/
def computing (g : Graph) (m : Machine) : List (Pulse × List NodeId) :=
  (m.pulse, m.completing ++ evaluating g m.scope m.callers) :: waiting g m.callers

variable {g : Graph} {log : Log} {w : World} {m : Machine} {lookup : Engine.Lookup}

theorem Parked.whole {id : PulseId} {callers : List Caller} (h : Parked g log id callers) {p : Pulse}
    {busy : List NodeId} (member : (p, busy) ∈ waiting g callers) : g.Tidy log p busy := by
  induction callers generalizing id with
  | nil => cases member
  | cons caller callers ih =>
      cases caller with
      | node s next => exact ih h member
      | pulse outer s next =>
          obtain ⟨_, tidy, rest⟩ := h
          rcases List.mem_cons.mp member with same | older
          · cases same
            exact tidy
          · exact ih rest older

/-- In every pulse of such a machine the outputs of a pure node that is not being computed are memoised all
or none. -/
theorem Thrifty.allOrNone (h : Thrifty g log w lookup m) {p : Pulse} {busy : List NodeId}
    (member : (p, busy) ∈ m.computing g) {n : NodeId} (pure : g.isPure n = true) (free : n ∉ busy) :
    (∀ o ∈ g.outputs n, p.memo.contains o = true) ∨ ∀ o ∈ g.outputs n, p.memo.contains o = false := by
  rcases List.mem_cons.mp member with current | waits
  · cases current
    rw [List.mem_append, not_or] at free
    by_cases pending : n ∈ lookup.pending
    · -- A node that is still to be completed has no outputs, or it would be among those being computed.
      refine .inl fun o declared => absurd ?_ free.1
      exact mem_completing h.nested.looks pending declared
    · exact (h.tidy n pure (List.not_mem_append pending free.2)).allOrNone
  · exact (h.parked.whole waits n pure free).allOrNone

end Machine

namespace Machine

/-- What a machine that is alone asks for in its first moves. -/
def requests (g : Graph) (w : World) (m : Machine) : (moves : Nat) → Log
  | 0 => []
  | moves + 1 =>
    let t := alone g w m moves
    requests g w m moves ++
      if (t.machine.step g t.world).next?.isSome then t.machine.asking?.toList else []

theorem course_alone (g : Graph) (w : World) (m : Machine) (moves : Nat) :
    Course g w m (requests g w m moves) (alone g w m moves).world (alone g w m moves).machine := by
  induction moves with
  | zero => exact .refl
  | succ moves ih =>
      rw [alone, requests]
      cases progress : (alone g w m moves).machine.step g (alone g w m moves).world with
      | running w' m' => exact ih.move (by rw [progress]; rfl)
      | sleeping w' milliseconds m' | resting w' m' =>
          have moved : Course g w m _ w' m' := ih.move (by rw [progress]; rfl)
          exact moved.others (Nat.le_refl _)
      | ended w' result =>
          simp only [Progress.resumed?, Progress.next?, Option.isSome_none, Bool.false_eq_true, if_false,
            List.append_nil]
          exact ih

end Machine

namespace Graph

/-- Nothing is computed without need, by what has been asked for so far and what is memoised now. -/
structure Thrift (g : Graph) (log : Log) (m : Machine) : Prop where
  /-- Between two computations of a node in a pulse, the pulse publishes something that it derives from. -/
  recomputes : ∀ {before between after id n depth depth'},
    log = before ++ (id, .evaluate n depth) :: between ++ (id, .evaluate n depth') :: after →
    ∃ output v, (id, .act (.publish output v (g.dependents output))) ∈ between ∧
      g.isPure output.node = false ∧ g.Derives output n
  /-- A node that derives from nothing that flow drives is computed once in a pulse at most. -/
  once : ∀ id {n}, (∀ output, g.isPure output.node = false → ¬ g.Derives output n) →
    (log.filter (Log.computes id n)).length ≤ 1
  /-- Publishing takes the values of what derives from the output out of the memo, and nothing else. -/
  evicts : ∀ {output v dependents next}, m.program = .ask (.act (.publish output v dependents)) next →
    ∀ port, (g.Derives output port.node → (m.pulse.publish output v dependents).memo.get? port = none) ∧
      (¬ g.Derives output port.node →
        (m.pulse.publish output v dependents).memo.get? port = m.pulse.memo.get? port)
  /-- In no pulse are some outputs of a node memoised and others not, unless it is being computed there. -/
  allOrNone : ∀ {p busy}, (p, busy) ∈ m.computing g → ∀ {n}, g.isPure n = true → n ∉ busy →
    (∀ o ∈ g.outputs n, p.memo.contains o = true) ∨ ∀ o ∈ g.outputs n, p.memo.contains o = false

/-- At every point of every run of a pulse, whatever its nodes are and whatever pulses they run themselves,
nothing has been computed without need. -/
theorem computes_when_needed {g : Graph} (built : g.Built) {w₀ w : World} {root : NodeId} {token : TokenId}
    {log : Log} {m : Machine}
    (course : Machine.Course g (Machine.start g w₀ root token).1 (Machine.start g w₀ root token).2
      log w m) : g.Thrift log m := by
  obtain ⟨⟨lookup, thrifty⟩, economical⟩ := Log.economical_of_course built course
  constructor
  case recomputes => exact fun eq => economical.exists_publish built eq
  case once => exact fun id _ free => economical.length_computes_le built id free
  case evicts =>
    intro output v dependents next asks port
    have looks := thrifty.nested.looks
    rw [asks] at looks
    obtain ⟨here, driven, rfl⟩ := looks.2.1
    have evicted := built.mem_dependents_iff (n := port.node) (here ▸ driven : g.isPure output.node = false)
    rw [m.pulse.get?_publish]
    constructor
    · exact fun derives => if_pos (evicted.mpr derives)
    · exact fun free => if_neg fun member => free (evicted.mp member)
  case allOrNone => exact fun member _ pure free => thrifty.allOrNone member pure free

/-- In a loop of two rounds the sum that derives from the number of the round is computed twice, and the
number that is added once. -/
theorem computes_when_needed_rounds :
    ∃ log w m,
      Machine.Course rounds (Machine.start rounds {} ⟨0⟩ ⟨0⟩).1 (Machine.start rounds {} ⟨0⟩ ⟨0⟩).2 log w m ∧
      (log.filter (Log.computes ⟨1⟩ ⟨3⟩)).length = 2 ∧ (log.filter (Log.computes ⟨1⟩ ⟨2⟩)).length = 1 ∧
      rounds.Thrift log m := by
  have course := Machine.course_alone rounds (Machine.start rounds {} ⟨0⟩ ⟨0⟩).1
    (Machine.start rounds {} ⟨0⟩ ⟨0⟩).2 42
  exact ⟨_, _, _, course, by cbv, by cbv, computes_when_needed rounds_fromCatalogue.built course⟩

end Graph

end FlowGraph
