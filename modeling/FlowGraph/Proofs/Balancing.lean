import FlowGraph.Proofs.Accounting

/-!
# The counters balance

In every pulse of a machine, the one that it is in and those that wait for it, the counters say what has been
asked for so far: a move changes one pulse at most, and that one counts what it asks for. In a pulse that
completes nothing is being computed any more, since it has been started from a node that flow drives. So its
report balances.
-/

namespace FlowGraph

open Engine (Due Lookup)

/-! ## The counters of a machine -/

namespace Machine

open Engine (Tallies)

variable {g : Graph} {log : Log} {w w' : World} {m m' : Machine} {lookup : Lookup} {due : Due}
  {p : Pulse} {s : Scope} {callers : List Caller}

/-- The pulses that wait for another one were started before it. -/
theorem Parked.earlier {id : PulseId} (h : Parked g log id callers) :
    ∀ e ∈ waiting g callers, e.1.id.number < id.number := by
  induction callers generalizing id with
  | nil => nofun
  | cons caller callers ih =>
      cases caller with
      | node s next => exact ih h
      | pulse outer s next =>
          obtain ⟨earlier, _, rest⟩ := h
          exact List.forall_mem_cons.mpr ⟨earlier, fun e older => (ih rest e older).trans earlier⟩

/-- Where an error is handed over to, the pulse goes on as it has waited. -/
theorem waiting_of_unwind {token : TokenId} {error : PulseError}
    (moves : (unwind w token error callers).next? = some (w', m')) :
    waiting g callers = (m'.pulse, evaluating g m'.scope m'.callers) :: waiting g m'.callers := by
  induction callers with
  | nil => cases moves
  | cons caller callers ih =>
      cases caller with
      | node s next => exact ih moves
      | pulse outer s next =>
          cases moves
          rfl

/-- The node at the bottom, which has been entered first, is driven by flow. -/
def Rooted (g : Graph) : NodeId → List Caller → Prop
  | n, [] => g.isPure n = false
  | _, caller :: callers => Rooted g caller.scope.node callers

theorem Rooted.unwind {n : NodeId} {token : TokenId} {error : PulseError} (h : Rooted g n callers)
    (moves : (Machine.unwind w token error callers).next? = some (w', m')) :
    Rooted g m'.scope.node m'.callers := by
  induction callers generalizing n with
  | nil => cases moves
  | cons caller callers ih =>
      cases caller with
      | node s next => exact ih h moves
      | pulse outer s next =>
          cases moves
          exact h

theorem Rooted.leave (h : Rooted g m.scope.node m.callers) (moves : (m.leave w).next? = some (w', m')) :
    Rooted g m'.scope.node m'.callers := by
  obtain ⟨p, s, program, callers⟩ := m
  cases callers with
  | nil => cases moves
  | cons caller callers =>
      cases caller with
      | node s next | pulse outer s next =>
          cases moves
          exact h

/-- Where a node is computed, none of its outputs is memoised. -/
theorem Thrifty.none_memoized (built : g.Built) {n : NodeId} {depth : Nat} {next : Unit → Engine Unit}
    (h : Thrifty g log w lookup ⟨p, s, .ask (.evaluate n depth) next, callers⟩) :
    (n :: evaluating g s callers).Nodup ∧ ∀ o ∈ g.outputs n, p.memo.contains o = false := by
  have nodup := h.nested.nodup_of_evaluate built
  obtain ⟨⟨holds, looks, _⟩, _, _, tidy, _⟩ := h
  obtain ⟨⟨output, declared, rfl⟩, pure, _⟩ := looks
  refine ⟨nodup, ?_⟩
  rcases (tidy n pure (List.nodup_cons.mp nodup).1).allOrNone with all | none
  · have missing : p.memo.get? output = none := holds
    have has := all output declared
    rw [Table.contains, missing] at has
    cases has
  · exact none

/-- A machine all of whose pulses count what they ask for. -/
structure Balanced (g : Graph) (log : Log) (w : World) (lookup : Lookup) (due : Due) (m : Machine) : Prop where
  thrifty : Thrifty g log w lookup m
  program : Tallies g m.scope due m.program
  callers : Waits (fun _ s p => Tallies g s .nothing p) m.pulse.root m.callers
  counted : Counted g (log.of m.pulse.id) m.pulse due (lookup.pending ++ evaluating g m.scope m.callers)
  parked : ∀ e ∈ waiting g m.callers, Counted g (log.of e.1.id) e.1 .nothing e.2
  rooted : Rooted g m.scope.node m.callers

/-- What a pulse asks for does not concern those that wait for it. -/
theorem Balanced.parked_snoc (h : Balanced g log w lookup due m) (r : EngineRequest) :
    ∀ e ∈ waiting g m.callers, Counted g (Log.of (log ++ [(m.pulse.id, r)]) e.1.id) e.1 .nothing e.2 := by
  intro e waits
  rw [Log.of_snoc_of_ne]
  · exact h.parked e waits
  · intro same
    have earlier := h.thrifty.parked.earlier e waits
    rw [← same] at earlier
    exact Nat.lt_irrefl _ earlier

/-- What is due after an action, and what the counters say then. -/
theorem Balanced.act {a : Action} {next : a.Reply → Engine Unit}
    (h : Balanced g log w lookup due ⟨p, s, .ask (.act a) next, callers⟩) :
    ∃ due', Tallies g s due' (next (a.perform w p).1) ∧
      Counted g (log.of p.id ++ [.act a]) (a.perform w p).2.2 due'
        ((lookupAfter g ⟨p, s, .ask (.act a) next, callers⟩).pending ++ evaluating g s callers) := by
  obtain ⟨⟨⟨_, looks, nests⟩, _, _, _, _⟩, tallies, _, counted, _, _⟩ := h
  have idle (complete : lookup.IsComplete) :
      Counted g (log.of p.id) p due (evaluating g s callers) := by
    simpa only [pending_of_complete complete, List.nil_append] using counted
  cases a with
  | memoized output =>
      have counted := idle looks.1
      have found : (lookupAfter g ⟨p, s, .ask (.act (.memoized output)) next, callers⟩).IsComplete := by
        simp only [lookupAfter]
        split <;> trivial
      rw [pending_of_complete found]
      obtain ⟨pure, ⟨rfl, hit, miss⟩ | ⟨rfl, later⟩⟩ := tallies
      · show ∃ due', Tallies g s due' (next (p.memo.get? output)) ∧ Counted g _ p due' _
        cases p.memo.get? output with
        | some v => exact ⟨.hit, hit v, counted.lookUp pure rfl rfl⟩
        | none => exact ⟨.computation, miss, counted.lookUp pure rfl rfl⟩
      · exact ⟨.nothing, later _, counted.fetch pure⟩
  | countHit =>
      obtain ⟨rfl, later⟩ := tallies
      exact ⟨.nothing, later, (idle looks.1).countHit⟩
  | completeEvaluation resting =>
      obtain ⟨n, k, rfl, member, rfl, _⟩ := looks
      obtain ⟨rfl, later⟩ := tallies
      exact ⟨.fetch, later, counted.complete member⟩
  | begin n list =>
      obtain ⟨rfl, rfl, later⟩ := tallies
      exact ⟨.nothing, later, (idle looks.1).begin n⟩
  | memoize output v =>
      obtain ⟨rfl, own, later⟩ := tallies
      obtain ⟨complete, ⟨_, pure⟩, _⟩ := looks
      have computing : s.node ∈ evaluating g s callers :=
        evaluating_of_pure pure callers ▸ List.mem_cons_self ..
      exact ⟨.nothing, later (), (idle complete).memoize computing own v⟩
  | publish output v dependents =>
      obtain ⟨rfl, _, later⟩ := tallies
      obtain ⟨complete, ⟨_, driven, _⟩, _⟩ := looks
      have counted := idle complete
      rw [evaluating_of_driven driven] at counted ⊢
      exact ⟨.nothing, later (), counted.publish output v dependents⟩
  | countSuppression =>
      obtain ⟨rfl, ordinary, later⟩ := tallies
      exact ⟨.nothing, later (), (idle looks.1).silent ordinary.silent rfl⟩
  | _ =>
      obtain ⟨rfl, ordinary, later⟩ := tallies
      exact ⟨.nothing, later _, (idle looks.1).unchanged ordinary.silent⟩

/-- A machine that is done goes back to where it has been entered from. -/
theorem Balanced.leave (h : Balanced g log w lookup due ⟨p, s, .done (), callers⟩)
    (moves : (leave w ⟨p, s, .done (), callers⟩).next? = some (w', m')) :
    Balanced g log w' (lookupAfter g ⟨p, s, .done (), callers⟩) .nothing m' := by
  have thrifty := h.thrifty.leave moves
  have framed := h.callers.leave moves
  have rooted := h.rooted.leave moves
  obtain ⟨⟨nested, _, _, _, _⟩, rfl, _, counted, parked, _⟩ := h
  have complete : lookup.IsComplete := nested.looks
  simp only [pending_of_complete complete, List.nil_append] at counted
  refine ⟨thrifty, framed.program, framed.callers, ?_, ?_, rooted⟩
  · cases nested.callers with
    | nil => cases moves
    | evaluation pure feeds later rest =>
        -- The node has been computed and is now the one that its reader has to complete.
        cases moves
        rw [evaluating_of_pure pure] at counted
        simp only [lookupAfter, pure, if_true]
        exact counted
    | activation driven source later rest =>
        cases moves
        rw [evaluating_of_driven driven] at counted
        simp only [lookupAfter, driven, Bool.false_eq_true, if_false, evaluating_of_driven source]
        exact counted
    | pulse driven later rest =>
        cases moves
        simp only [lookupAfter, driven, Bool.false_eq_true, if_false]
        exact parked _ (List.mem_cons_self ..)
  · cases nested.callers with
    | nil => cases moves
    | evaluation pure feeds later rest | activation driven source later rest =>
        cases moves
        exact parked
    | pulse driven later rest =>
        cases moves
        exact fun e older => parked e (List.mem_cons_of_mem _ older)

/-- Every move of such a machine leads to such a machine. -/
theorem Balanced.step (conforms : g.Conforming) (h : Balanced g log w lookup due m)
    (moves : (m.step g w).next? = some (w', m')) :
    ∃ due', Balanced g (log ++ m.asking?.toList) w' (m.lookupAfter g) due' m' := by
  have thrifty := h.thrifty.step conforms.built moves
  obtain ⟨p, s, program, callers⟩ := m
  cases program with
  | done =>
      rw [asking?, Option.toList_none, List.append_nil]
      exact ⟨.nothing, h.leave moves⟩
  | ask r next =>
      have parked := h.parked_snoc r
      have own : Log.of (log ++ [(p.id, r)]) p.id = log.of p.id ++ [r] := log.of_snoc_self p.id r
      -- A silent request changes nothing about the counters of a pulse in which nothing is due.
      have silent (none : due = .nothing) (complete : lookup.IsComplete) (silent : r.Silent) :
          Counted g (Log.of (log ++ [(p.id, r)]) p.id) p .nothing (evaluating g s callers) := by
        have counted := h.counted
        rw [pending_of_complete complete, List.nil_append, none] at counted
        exact own ▸ counted.unchanged silent
      cases r with
      | act a =>
          obtain ⟨due', tallies, counted⟩ := h.act
          have id := a.id_perform w p
          have root := a.root_perform w p
          cases moves
          refine ⟨due', thrifty, tallies, root.symm ▸ h.callers, ?_, parked, h.rooted⟩
          show Counted g (Log.of _ (a.perform w p).2.2.id) _ _ _
          rw [id]
          exact own ▸ counted
      | evaluate n depth =>
          obtain ⟨nodup, none⟩ := h.thrifty.none_memoized conforms.built
          -- Nothing of the node is memoised, so all of its outputs are still expected.
          obtain ⟨rfl, later⟩ := h.program
          obtain ⟨⟨_, _, rfl⟩, pure, _⟩ := h.thrifty.nested.looks
          have counted := h.counted.evaluate pure (List.nodup_cons.mp nodup).1 none depth
          cases moves
          refine ⟨.nothing, thrifty, (Engine.composed_evaluation conforms).tallies, ⟨fun _ => later, h.callers⟩,
            ?_, parked, h.rooted⟩
          show Counted g (Log.of _ p.id) p _ (evaluating g ⟨n, depth⟩ (.node s next :: callers))
          rw [evaluating_of_pure pure]
          exact own ▸ counted
      | activate n depth =>
          obtain ⟨none, ordinary, later⟩ := h.program
          obtain ⟨complete, ⟨source, driven⟩, _⟩ := h.thrifty.nested.looks
          have counted := silent none complete ordinary.silent
          rw [evaluating_of_driven source] at counted
          cases moves
          refine ⟨.nothing, thrifty, Engine.tallies_activation conforms, ⟨later, h.callers⟩, ?_, parked,
            h.rooted⟩
          show Counted g (Log.of _ p.id) p _ (evaluating g ⟨n, depth⟩ (.node s next :: callers))
          rwa [evaluating_of_driven driven]
      | sleep milliseconds | rest =>
          obtain ⟨none, ordinary, later⟩ := h.program
          have counted := silent none h.thrifty.nested.looks.1 ordinary.silent
          cases moves
          exact ⟨.nothing, thrifty, later (), h.callers, counted, parked, h.rooted⟩
      | restart =>
          have counted := silent h.program h.thrifty.nested.looks ⟨fun _ => rfl, rfl, rfl⟩
          cases moves
          exact ⟨.nothing, thrifty, (Engine.composed_process conforms).tallies, h.callers, counted, parked,
            h.rooted⟩
      | abort cause =>
          have framed := h.callers.unwind moves
          rw [waiting_of_unwind moves] at parked
          obtain ⟨counted, older⟩ := List.forall_mem_cons.mp parked
          exact ⟨.nothing, thrifty, framed.program, framed.callers, counted, older, h.rooted.unwind moves⟩
      | pulse root =>
          obtain ⟨none, later⟩ := h.program
          obtain ⟨complete, driven, _⟩ := h.thrifty.nested.looks
          have counted := silent none complete ⟨fun _ => rfl, rfl, rfl⟩
          have logged := h.thrifty.logged
          have started : p.id.number ≤ w.pulses := h.thrifty.started
          cases moves
          have unlogged : Log.of (log ++ [(p.id, .pulse root)]) ⟨w.pulses + 1⟩ = [] := by
            apply Log.of_eq_nil
            intro entry member same
            have new : entry.1.number = w.pulses + 1 := congrArg PulseId.number same
            rcases List.mem_append.mp member with old | last
            · have := logged entry old
              omega
            · obtain rfl := List.mem_singleton.mp last
              have new : p.id.number = w.pulses + 1 := new
              omega
          refine ⟨.nothing, thrifty, Engine.tallies_activation conforms, ⟨later, h.callers⟩, ?_, ?_, h.rooted⟩
          · show Counted g (Log.of _ ⟨w.pulses + 1⟩) _ _ (evaluating g ⟨root, 0⟩ (.pulse p s next :: callers))
            rw [evaluating_of_driven driven]
            exact unlogged ▸ Counted.new _ root _
          · exact List.forall_mem_cons.mpr ⟨counted, parked⟩

/-- The start of a pulse. -/
theorem balanced_start (conforms : g.Conforming) {root : NodeId} {r : Member} (triggerable : g.root root = .ok r)
    (w : World) (token : TokenId) :
    Balanced g [] (start g w root token).1 .idle .nothing (start g w root token).2 := by
  refine ⟨thrifty_start conforms.built w root token, Engine.tallies_activation conforms, trivial, ?_, nofun,
    Engine.isPure_of_root triggerable⟩
  show Counted g [] _ _ (evaluating g ⟨root, 0⟩ [])
  rw [evaluating_of_driven (Engine.isPure_of_root triggerable)]
  exact Counted.new w root token

/-- Others change nothing about what a machine has counted. -/
theorem Balanced.later (h : Balanced g log w lookup due m) (later : w.pulses ≤ w'.pulses) :
    Balanced g log w' lookup due m :=
  ⟨h.thrifty.later later, h.program, h.callers, h.counted, h.parked, h.rooted⟩

/-- At every point of every run the counters say what has been asked for. -/
theorem balanced_of_course (conforms : g.Conforming) {root : NodeId} {r : Member}
    (triggerable : g.root root = .ok r) {w₀ : World} {token : TokenId}
    (course : Course g (start g w₀ root token).1 (start g w₀ root token).2 log w m) :
    ∃ lookup due, Balanced g log w lookup due m := by
  induction course with
  | refl => exact ⟨_, _, balanced_start conforms triggerable w₀ token⟩
  | others _ later ih =>
      obtain ⟨lookup, due, balanced⟩ := ih
      exact ⟨lookup, due, balanced.later later⟩
  | move _ moves ih =>
      obtain ⟨lookup, due, balanced⟩ := ih
      exact ⟨_, balanced.step conforms moves⟩

/-- The next move of a machine completes its pulse with a report: the machine ends, or it goes back to the
pulse that waits for this one. -/
inductive Completes (g : Graph) (w : World) (m : Machine) : Report → Prop where
  | ends {w' report} (ends : m.step g w = .ended w' (.ok report)) : Completes g w m report
  | returns {outer s next callers} (waits : m.callers = .pulse outer s next :: callers)
      (finished : m.program = .done ()) : Completes g w m (m.pulse.report w)

/-- A pulse completes when all its programs are done. -/
theorem Completes.finished {report : Report} (h : m.Completes g w report) :
    m.program = .done () ∧ (∀ s next callers, m.callers ≠ .node s next :: callers) ∧
      report = m.pulse.report w := by
  cases h with
  | returns waits finished => exact ⟨finished, by rw [waits]; nofun, rfl⟩
  | ends ends =>
      obtain ⟨p, s, program, callers⟩ := m
      cases program with
      | done =>
          cases callers with
          | nil =>
              cases ends
              exact ⟨rfl, nofun, rfl⟩
          | cons caller callers => cases caller <;> cases ends
      | ask r next =>
          cases r with
          | abort cause =>
              rcases unwind_cases w p.token (.aborted p.id cause) callers with ⟨_, _, eq⟩ | eq <;>
                cases eq.symm.trans ends
          | _ => cases ends

theorem completes_of_done (finished : m.program = .done ()) (last : m.callers = []) :
    m.Completes g w (m.pulse.report w) := by
  apply Completes.ends
  · rw [step, finished]
    show m.leave w = _
    rw [leave, last]

/-- Nothing is being computed in a pulse that completes, and nothing is due. -/
theorem Balanced.counted_of_completes (h : Balanced g log w lookup due m) {report : Report}
    (completes : m.Completes g w report) : Counted g (log.of m.pulse.id) m.pulse .nothing [] := by
  obtain ⟨finished, last, _⟩ := completes.finished
  obtain ⟨p, s, program, callers⟩ := m
  obtain rfl : program = .done () := finished
  obtain ⟨⟨nested, _, _, _, _⟩, rfl, _, counted, _, rooted⟩ := h
  have driven : g.isPure s.node = false := by
    cases nested.callers with
    | nil => exact rooted
    | pulse driven _ _ => exact driven
    | evaluation | activation => exact absurd rfl (last _ _ _)
  rwa [pending_of_complete nested.looks, evaluating_of_driven driven] at counted

theorem Unlists.completes {n : Machine} (conforms : g.Conforming) (h : m.Unlists n) {report : Report}
    (completes : m.Completes g w report) : n.Completes g.unlisted w report.unlisted := by
  cases completes with
  | @ends w' _ ends =>
      obtain ⟨progress, _⟩ := h.step conforms w
      rw [ends] at progress
      generalize moved : n.step g.unlisted w = last at progress
      cases progress with
      | ended => exact .ends moved
  | returns waits finished =>
      obtain ⟨p, s, program, callers⟩ := m
      obtain ⟨_, _, program', callers'⟩ := n
      obtain ⟨rfl, rfl, same, waiting⟩ := h
      obtain rfl : program = .done () := finished
      obtain rfl : callers = _ := waits
      cases same
      cases waiting with
      | pulse outer scope later rest => exact .returns rfl rfl

end Machine

/-! ## What a report tells -/

theorem Graph.length_flatMap_outputs_le {g : Graph} {nodes : List NodeId}
    (single : ∀ n ∈ nodes, (g.outputs n).length ≤ 1) : (nodes.flatMap g.outputs).length ≤ nodes.length := by
  induction nodes with
  | nil => exact Nat.le_refl _
  | cons n nodes ih =>
      obtain ⟨first, later⟩ := List.forall_mem_cons.mp single
      have rest := ih later
      rw [List.flatMap_cons, List.length_append, List.length_cons]
      omega

/-- What a report tells about a pulse that has made some requests and ends in some state. -/
structure Report.Balances (g : Graph) (requests : Requests) (p : Pulse) (r : Report) : Prop where
  /-- Only outputs of pure nodes are looked up, and only pure nodes are computed. -/
  pure : ∀ request ∈ requests, request.ConcernsPure g
  /-- Each reading of an output of a pure node is a hit or has the node computed. -/
  reads : r.memoHits + r.evaluations = requests.readings.count
  evaluations : r.evaluations = requests.computed.length
  /-- The outputs of the nodes that have been computed, as often as they have been, are memoised or have
  been evicted. -/
  memo : p.memo.size + r.invalidations = (requests.computed.flatMap g.outputs).length
  invalidations : (∀ n, g.isPure n = true → (g.outputs n).length ≤ 1) → r.invalidations ≤ r.evaluations
  fired : r.fired = true ↔ 0 < r.activationCount
  activations : r.activationCount = requests.begun
  listed : g.config.recordActivations = true → r.activationCount = r.activations.length
  unlisted : g.config.recordActivations = false → r.activations = []

/-- The counters of a pulse that completes say all this of it. -/
theorem Counted.balances {g : Graph} {requests : Requests} {p : Pulse}
    (h : Counted g requests p .nothing []) (w : World) : (p.report w).Balances g requests p := by
  have computed : requests.computed.length = p.evaluations := h.computed
  have memo : p.memo.size + p.invalidations = (requests.computed.flatMap g.outputs).length := h.memo
  constructor
  case pure => exact h.pure
  case reads =>
    rw [h.readings]
    show p.memoHits + p.evaluations = p.memoHits + requests.computed.length
    rw [computed]
  case evaluations => exact computed.symm
  case memo => exact memo
  case invalidations =>
    intro single
    have bound := Graph.length_flatMap_outputs_le fun n member => single n (Requests.isPure_of_computed h.pure member)
    show p.invalidations ≤ p.evaluations
    omega
  case fired => exact decide_eq_true_iff
  case activations => exact h.begun
  case listed =>
    intro lists
    have listed := h.listed
    rw [if_pos lists] at listed
    exact listed.symm.trans Array.length_toList.symm
  case unlisted =>
    intro lists
    have listed := h.listed
    rw [lists, if_neg Bool.false_ne_true] at listed
    exact Array.toList_eq_nil_iff.mpr (Array.size_eq_zero_iff.mp listed)

namespace Graph

variable {g : Graph} {root : NodeId} {r : Member} {w₀ w : World} {token : TokenId} {log : Log} {m : Machine}

/-- Whatever its nodes are and however they run pulses within pulses, the report of every pulse that completes
balances; and the same run, with the same requests in the same world, is one of the graph that does not
list activations, where the same pulse completes with the same report but for the list. -/
theorem counters_balance (conforms : g.Conforming) (triggerable : g.root root = .ok r)
    (course : Machine.Course g (Machine.start g w₀ root token).1 (Machine.start g w₀ root token).2
      log w m) :
    (∀ report, m.Completes g w report → report.Balances g (log.of m.pulse.id) m.pulse) ∧
    ∃ n, Machine.Course g.unlisted (Machine.start g.unlisted w₀ root token).1
        (Machine.start g.unlisted w₀ root token).2 log.unlisted w n ∧
      m.Unlists n ∧ (m.step g w).Unlists (n.step g.unlisted w) ∧
      ∀ report, m.Completes g w report → n.Completes g.unlisted w report.unlisted := by
  constructor
  · intro report completes
    obtain ⟨lookup, due, balanced⟩ := Machine.balanced_of_course conforms triggerable course
    obtain ⟨_, _, rfl⟩ := completes.finished
    exact (balanced.counted_of_completes completes).balances w
  · obtain ⟨n, course, same⟩ := (Machine.unlists_start conforms w₀ root token).course conforms course
    exact ⟨n, course, same, (same.step conforms w).1, fun report completes => same.completes conforms completes⟩

/-- The loop of two rounds reads outputs of pure nodes five times, computes four nodes and evicts one sum. -/
theorem counters_balance_rounds :
    ∃ r log w, ∃ m n : Machine, ∃ report, rounds.root ⟨0⟩ = .ok r ∧
      Machine.Course rounds (Machine.start rounds {} ⟨0⟩ ⟨0⟩).1 (Machine.start rounds {} ⟨0⟩ ⟨0⟩).2 log w m ∧
      m.Completes rounds w report ∧ report.memoHits = 1 ∧ report.evaluations = 4 ∧
      report.invalidations = 1 ∧ m.pulse.memo.size = 3 ∧ report.activationCount = 3 ∧
      report.Balances rounds (log.of m.pulse.id) m.pulse ∧
      n.Completes rounds.unlisted w report.unlisted := by
  have triggerable : rounds.root ⟨0⟩ = .ok ⟨"loop", CatalogueNode.forLoop.node⟩ := rfl
  have course := Machine.course_alone rounds (Machine.start rounds {} ⟨0⟩ ⟨0⟩).1
    (Machine.start rounds {} ⟨0⟩ ⟨0⟩).2 52
  obtain ⟨t, moved, finished, last, hits, computed, evicted, size, begun⟩ :
      ∃ t : Trace, t = Machine.alone rounds (Machine.start rounds {} ⟨0⟩ ⟨0⟩).1
          (Machine.start rounds {} ⟨0⟩ ⟨0⟩).2 52 ∧
        t.machine.program = .done () ∧ t.machine.callers = [] ∧ t.machine.pulse.memoHits = 1 ∧
        t.machine.pulse.evaluations = 4 ∧ t.machine.pulse.invalidations = 1 ∧
        t.machine.pulse.memo.size = 3 ∧ t.machine.pulse.activationCount = 3 :=
    ⟨_, rfl, by cbv, by cbv, by cbv, by cbv, by cbv, by cbv, by cbv⟩
  rw [← moved] at course
  obtain ⟨balances, n, _, _, _, unlisted⟩ :=
    counters_balance rounds_fromCatalogue.conforming triggerable course
  have completes := Machine.completes_of_done (g := rounds) (w := t.world) finished last
  exact ⟨_, _, _, _, n, _, triggerable, course, completes, hits, computed, evicted, size, begun,
    balances _ completes, unlisted _ completes⟩

end Graph

end FlowGraph
