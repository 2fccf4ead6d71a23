import FlowGraph.Proofs.Exchanges
import FlowGraph.Proofs.Updating

/-!
# Loops with a count

A loop reads its count once, when flow enters it. In every round it publishes the number of the round and
fires what is to be done, and nothing that is done within the round publishes another number unless flow
enters the loop again. So whatever is read in a round, by whomever, is read by the number of the round.
-/

namespace FlowGraph

namespace Engine

open CatalogueNode (iterate)

/-- What a loop asks for in some rounds. -/
def roundsFrom (start count : Nat) : List NodeRequest :=
  (List.range' start count).flatMap fun i => [.isCancelled, .publish 0 (.int (.ofNat i)), .fire 0]

/-- All that a loop asks for. -/
def counting (count : Nat) : List NodeRequest :=
  .input 0 .int :: (roundsFrom 0 count ++ [.isCancelled, .fire 1])

theorem roundsFrom_succ (start count : Nat) :
    roundsFrom start (count + 1) =
      .isCancelled :: .publish 0 (.int (.ofNat start)) :: .fire 0 :: roundsFrom (start + 1) count := by
  rw [roundsFrom, List.range'_succ]
  rfl

variable {g : Graph} {s : Scope} {process : NodeProgram Unit} {p p' : Pulse} {exchanges : List Exchange}
  {isOver : Bool} {n : NodeId} {steps : Nat} {events : List Event}

/-- A round of a loop has not been finished, or it is over and the loop goes on with the next one. -/
theorem Does.round (built : g.Built) (driven : g.isPure s.node = false) {remaining : Nat} {index : Int32}
    (h : Does g s process (iterate (remaining + 1) index) p exchanges p' isOver)
    (unseen : Unseen (exchanges.flatMap (·.events))) :
    (isOver = false ∧ exchanges.map (·.request) <+: [.isCancelled, .publish 0 (.int index), .fire 0] ∧
      (exchanges.map (·.request) = [.isCancelled, .publish 0 (.int index), .fire 0] →
        Unentered s.node (exchanges.flatMap (·.events)) →
        lastPublished (exchanges.flatMap (·.events)) ⟨s.node, 0⟩ = some (.int index))) ∨
      ∃ round later p₁, exchanges = round ++ later ∧
        round.map (·.request) = [.isCancelled, .publish 0 (.int index), .fire 0] ∧
        (Unentered s.node (round.flatMap (·.events)) →
          lastPublished (round.flatMap (·.events)) ⟨s.node, 0⟩ = some (.int index)) ∧
        Does g s process (iterate remaining (index + 1)) p₁ later p' isOver := by
  rcases h.look_cases unseen with ⟨rfl, rfl⟩ | ⟨_, rfl, rfl⟩ | ⟨p₁, later, rfl, looked⟩
  · exact .inl ⟨rfl, List.nil_prefix, by simp⟩
  · exact .inl ⟨rfl, ⟨_, rfl⟩, by simp⟩
  rcases looked.ask_cases (by simp) with ⟨rfl, rfl⟩ | ⟨_, _, rfl, rfl, _⟩ |
    ⟨_, _, p₂, _, later, rfl, publishes, published⟩
  · exact .inl ⟨rfl, ⟨_, rfl⟩, by simp⟩
  · exact .inl ⟨rfl, ⟨_, rfl⟩, by simp⟩
  rw [answer_publish driven] at publishes
  obtain rfl := publishes.eq_of_act
  have current {steps : Nat} {fired : List Event} {p₃ : Pulse} {result : Option Unit}
      (fires : Pursued g s (fire g s 0) steps p₂ fired p₃ result)
      (unentered : Unentered s.node (.did .isCancelled false ::
        .did (.publish ⟨s.node, 0⟩ (.int index) (g.dependents ⟨s.node, 0⟩)) () :: (fired ++ []))) :
      lastPublished (.did .isCancelled false ::
        .did (.publish ⟨s.node, 0⟩ (.int index) (g.dependents ⟨s.node, 0⟩)) () :: (fired ++ []))
          ⟨s.node, 0⟩ = some (.int index) := by
    have silent := fires.unpublished built driven (mute_fire 0) unentered.tail.tail.split.1 0
    simp [lastPublished_cons, silent, Event.valueAt?]
  rcases published.ask_cases (by simp) with ⟨rfl, rfl⟩ | ⟨_, body, rfl, rfl, fires⟩ |
    ⟨_, body, p₃, _, later, rfl, fires, fired⟩
  · exact .inl ⟨rfl, ⟨_, rfl⟩, by simp⟩
  · exact .inl ⟨rfl, ⟨[], rfl⟩, fun _ => current fires⟩
  · exact .inr ⟨[_, _, _], later, p₃, rfl, rfl, current fires, fired⟩

/-- A loop that has no rounds left leaves. -/
theorem Does.leave {index : Int32} (h : Does g s process (iterate 0 index) p exchanges p' isOver)
    (unseen : Unseen (exchanges.flatMap (·.events))) :
    exchanges.map (·.request) <+: [.isCancelled, .fire 1] ∧
      (isOver = true → exchanges.map (·.request) = [.isCancelled, .fire 1]) := by
  rcases h.look_cases unseen with ⟨rfl, rfl⟩ | ⟨_, rfl, rfl⟩ | ⟨p₁, later, rfl, looked⟩
  · exact ⟨List.nil_prefix, by simp⟩
  · exact ⟨⟨_, rfl⟩, by simp⟩
  rcases looked.ask_cases (by simp) with ⟨rfl, rfl⟩ | ⟨_, _, rfl, rfl, _⟩ | ⟨_, _, p₂, _, later, rfl, _, left⟩
  · exact ⟨⟨_, rfl⟩, by simp⟩
  · exact ⟨⟨[], rfl⟩, by simp⟩
  cases left with
  | done => exact ⟨⟨[], rfl⟩, fun _ => rfl⟩
  | leftOff => exact ⟨⟨[], rfl⟩, by simp⟩

/-- A loop makes its rounds one after the other and then leaves. -/
theorem Does.iterate (built : g.Built) (driven : g.isPure s.node = false) {start remaining : Nat}
    (h : Does g s process (iterate remaining (.ofNat start)) p exchanges p' isOver)
    (unseen : Unseen (exchanges.flatMap (·.events))) :
    exchanges.map (·.request) <+: roundsFrom start remaining ++ [.isCancelled, .fire 1] ∧
      (isOver = true → exchanges.map (·.request) = roundsFrom start remaining ++ [.isCancelled, .fire 1]) ∧
      ∀ k, exchanges.map (·.request) = roundsFrom start (k + 1) →
        Unentered s.node (exchanges.flatMap (·.events)) →
        lastPublished (exchanges.flatMap (·.events)) ⟨s.node, 0⟩ = some (.int (.ofNat (start + k))) := by
  induction remaining generalizing start p exchanges with
  | zero =>
      obtain ⟨leaves, whole⟩ := h.leave unseen
      refine ⟨leaves, whole, fun k same _ => ?_⟩
      rw [same, roundsFrom_succ] at leaves
      simp at leaves
  | succ remaining ih =>
      rcases h.round built driven unseen with
        ⟨rfl, begun, current⟩ | ⟨round, later, p₁, rfl, asked, current, goesOn⟩
      · refine ⟨?_, (by simp), fun k all => ?_⟩
        · rw [roundsFrom_succ]
          exact begun.trans ⟨roundsFrom (start + 1) remaining ++ [.isCancelled, .fire 1], rfl⟩
        · cases k with
          | zero => exact current all
          | succ k =>
              have short := begun.length_le
              rw [all, roundsFrom_succ, roundsFrom_succ] at short
              simp only [List.length_cons, List.length_nil] at short
              omega
      · have next : Int32.ofNat start + 1 = .ofNat (start + 1) := (Int32.ofNat_add start 1).symm
        rw [next] at goesOn
        rw [List.flatMap_append] at unseen
        obtain ⟨requests, whole, currents⟩ := ih goesOn unseen.split.2
        simp only [List.map_append, asked, roundsFrom_succ, List.flatMap_append, lastPublished_append]
        refine ⟨?_, fun ended => ?_, fun k all unentered => ?_⟩
        · exact (List.prefix_append_right_inj _).mpr requests
        · exact congrArg ([_, _, _] ++ ·) (whole ended)
        · have same : later.map (·.request) = roundsFrom (start + 1) k := List.append_cancel_left all
          cases k with
          | zero =>
              obtain rfl : later = [] := by simpa [roundsFrom] using same
              exact current unentered.split.1
          | succ k =>
              rw [currents k same unentered.split.2, Nat.add_right_comm, Nat.add_assoc]
              rfl

/-- A loop reads its count and makes as many rounds, whatever the count becomes meanwhile. -/
theorem Does.counting (catalogue : g.FromCatalogue) {k : Member} (member : g.member? s.node = some k)
    (loop : k.node = CatalogueNode.forLoop.node) (fresh : g.Fresh p) {earlier : List Event}
    (known : p.published.get? = lastPublished earlier)
    (h : Does g s k.node.process k.node.process p exchanges p' isOver)
    (unseen : Unseen (exchanges.flatMap (·.events))) {count : Int32}
    (worth : g.InputIs (lastPublished earlier) ⟨s.node, 0⟩ ⟨"Count", .int, .single (0 : Int32) false false⟩
      (some (.int count))) :
    exchanges.map (·.request) <+: counting count.toInt.toNat ∧
      (isOver = true → exchanges.map (·.request) = counting count.toInt.toNat) ∧
      ∀ i, exchanges.map (·.request) = .input 0 .int :: roundsFrom 0 (i + 1) →
        Unentered s.node (exchanges.flatMap (·.events)) →
        lastPublished (exchanges.flatMap (·.events)) ⟨s.node, 0⟩ = some (.int (.ofNat i)) := by
  have driven : k.node.isPure = false := by
    rw [loop]
    rfl
  have pure : g.isPure s.node = false := by
    rw [Graph.isPure, member]
    exact driven
  have suits : k.node.process.Asks k.node.Suits := (catalogue.suits member).2
  have declared : k.descriptor.inputs[0]? = some ⟨"Count", .int, .single (0 : Int32) false false⟩ := by
    rw [Member.descriptor, loop]
    rfl
  have process : k.node.process = .ask (.input 0 .int) fun c => CatalogueNode.iterate c.toInt.toNat 0 := by
    rw [loop]
    rfl
  have current {c : Int32} {taken : List Event} {later : List Exchange}
      (same : exchanges = ⟨.input 0 .int, some c, taken⟩ :: later) : c = count := by
    have first : exchanges = [] ++ ⟨.input 0 .int, some c, taken⟩ :: later := same
    have read := h.current catalogue member driven suits suits fresh known declared rfl first
    rw [List.flatMap_nil, List.append_nil] at read
    cases read.unique worth
    rfl
  rw [process] at h
  rcases h.ask_cases (by simp) with ⟨rfl, rfl⟩ | ⟨_, _, rfl, rfl, _⟩ |
    ⟨_, taken, p₁, c, later, rfl, reads, goesOn⟩
  · exact ⟨List.nil_prefix, by simp, by simp⟩
  · exact ⟨⟨_, rfl⟩, by simp, fun _ all => by simp [roundsFrom_succ] at all⟩
  obtain rfl := current rfl
  have goesOn : Does g s _ (CatalogueNode.iterate c.toInt.toNat (.ofNat 0)) p₁ later p' isOver := goesOn
  obtain ⟨requests, whole, currents⟩ := goesOn.iterate catalogue.built pure unseen.split.2
  refine ⟨?_, fun ended => ?_, fun i all unentered => ?_⟩
  · exact (List.prefix_append_right_inj [_]).mpr requests
  · exact congrArg (_ :: ·) (whole ended)
  · have indexed := currents i (List.cons.inj all).2 unentered.split.2
    rw [Nat.zero_add] at indexed
    simp [lastPublished_append, indexed]

end Engine

namespace Graph

open Engine

variable {g : Graph}

/-- How far a loop with some count has come, by what has been published before and since then. -/
structure CountsUp (g : Graph) (n : NodeId) (count : Int32) (earlier within : List Event)
    (exchanges : List Exchange) (isOver : Bool) : Prop where
  requests : exchanges.map (·.request) <+: counting count.toInt.toNat
  answered : ∀ e ∈ exchanges.dropLast, e.reply.isSome = true
  whole : isOver = true →
    exchanges.map (·.request) = counting count.toInt.toNat ∧ ∀ e ∈ exchanges, e.reply.isSome = true
  current : ∀ i, exchanges.map (·.request) = .input 0 .int :: roundsFrom 0 (i + 1) → Unentered n within →
    lastPublished (earlier ++ within) ⟨n, 0⟩ = some (.int (.ofNat i))

/-- At every point of a run from where flow is let into a loop, the activation of the loop is under way, or it
has been over. It has made one round after the other, for as many rounds as the count was worth on entry, and
then it has left, unless it has found itself cancelled. Within a round, unless flow has been let into the loop
again, every output has one value by the number of the round, and reading it returns this value. -/
theorem loop_counts_up (catalogue : g.FromCatalogue) {root n : NodeId} {r k : Member}
    (triggerable : g.root root = .ok r) {w₀ w w' : World} {token : TokenId} {earlier events : List Event}
    {m m' : Machine}
    (before : Machine.Run g (fun _ _ => True) (Machine.start g w₀ root token).1
      (Machine.start g w₀ root token).2 earlier w m)
    (arrives : m.Arrives g n) (member : g.member? n = some k) (loop : k.node = CatalogueNode.forLoop.node)
    (run : Machine.Run g (fun _ _ => True) w m events w' m') :
    ∃ count : Int32,
      (∀ v, g.InputIs (lastPublished earlier) ⟨n, 0⟩ ⟨"Count", .int, .single (0 : Int32) false false⟩ v ↔
        v = some (.int count)) ∧
      ∃ within after isOver p', events = within ++ after ∧
        (isOver = false → after = [] ∧ m'.Inside m.callers) ∧
        (Unseen within → ∃ exchanges, Activity g m.scope k m.pulse within exchanges p' isOver ∧
          g.CountsUp n count earlier within exchanges isOver) ∧
        ∀ output o depth, g.Declares output o →
          ∃ v, (∀ v', g.Evaluates (lastPublished (earlier ++ events)) output v' ↔ v' = v) ∧
            ∃ p, p.published = m'.pulse.published ∧ Returns g m'.pulse (resolve g depth output) v p := by
  have underWay := underWay_of_run catalogue triggerable before
  have known := published_of_run catalogue triggerable before
  have declared : g.Takes ⟨n, 0⟩ ⟨"Count", .int, .single (0 : Int32) false false⟩ := by
    refine ⟨k, member, ?_⟩
    rw [Member.descriptor, loop]
    rfl
  have accepts : k.descriptor.flowInput = true := by
    rw [Member.descriptor, loop]
    rfl
  obtain ⟨count, worth⟩ := exists_inputIs catalogue underWay.fresh declared rfl
  rw [known] at worth
  obtain ⟨within, after, isOver, p', same, stops, active⟩ :=
    run.activity catalogue underWay arrives member accepts
  have only (v : Option Value) : g.InputIs (lastPublished earlier) ⟨n, 0⟩
      ⟨"Count", .int, .single (0 : Int32) false false⟩ v ↔ v = some (.int count) :=
    ⟨fun worth' => worth'.unique worth, fun same => same ▸ worth⟩
  refine ⟨count, only, within, after, isOver, p', same, stops, fun unseen => ?_,
    fun output o depth declares => ?_⟩
  · obtain ⟨exchanges, activity⟩ := active unseen
    refine ⟨exchanges, activity, ?_⟩
    obtain ⟨rfl, _⟩ := arrives
    cases activity with
    | entered | live => exact ⟨List.nil_prefix, List.forall_mem_nil _, by simp, by simp⟩
    | begun does =>
        obtain ⟨requests, whole, currents⟩ := does.counting catalogue member loop
          (underWay.fresh.begin m.scope.node _) known unseen.tail.tail worth
        refine ⟨requests, does.answered_dropLast, fun ended => ⟨whole ended, does.all_answered ended⟩, ?_⟩
        intro i all unentered
        have indexed := currents i all unentered.tail.tail
        simp [lastPublished_append, indexed]
  · have underWay' := underWay_of_run catalogue triggerable (before.trans run)
    have known' := published_of_run catalogue triggerable (before.trans run)
    obtain ⟨v, p, returns, read, value⟩ := resolve_returns catalogue underWay'.fresh declares depth
    rw [known'] at value
    refine ⟨v, fun v' => ⟨fun value' => value'.unique value, ?_⟩, p, read.published, returns⟩
    rintro rfl
    exact value

/-- The loop of two rounds, once it is over, has made all its rounds and has left. -/
theorem loop_counts_up_rounds :
    ∃ r k, ∃ t : Trace, ∃ count within exchanges p', rounds.root ⟨0⟩ = .ok r ∧ rounds.member? ⟨0⟩ = some k ∧
      k.node = CatalogueNode.forLoop.node ∧ (Machine.start rounds {} ⟨0⟩ ⟨0⟩).2.Arrives rounds ⟨0⟩ ∧
      Machine.Run rounds (fun _ _ => True) (Machine.start rounds {} ⟨0⟩ ⟨0⟩).1
        (Machine.start rounds {} ⟨0⟩ ⟨0⟩).2 t.events t.world t.machine ∧
      (∀ v, rounds.InputIs (lastPublished []) ⟨⟨0⟩, 0⟩ ⟨"Count", .int, .single (0 : Int32) false false⟩ v ↔
        v = some (.int count)) ∧
      Activity rounds ⟨⟨0⟩, 0⟩ k (Machine.start rounds {} ⟨0⟩ ⟨0⟩).2.pulse within exchanges p' true ∧
      rounds.CountsUp ⟨0⟩ count [] within exchanges true := by
  have triggerable : rounds.root ⟨0⟩ = .ok ⟨"loop", CatalogueNode.forLoop.node⟩ := rfl
  have arrives : (Machine.start rounds {} ⟨0⟩ ⟨0⟩).2.Arrives rounds ⟨0⟩ := ⟨rfl, rfl⟩
  obtain ⟨t, moved, finished, last, unseen⟩ :
      ∃ t : Trace, t = Machine.alone rounds (Machine.start rounds {} ⟨0⟩ ⟨0⟩).1
          (Machine.start rounds {} ⟨0⟩ ⟨0⟩).2 52 ∧
        t.machine.program = .done () ∧ t.machine.callers = [] ∧
        t.events.any Event.findsCancelled = false :=
    ⟨_, rfl, by cbv, by cbv, by cbv⟩
  have run : Machine.Run rounds (fun _ _ => True) _ _ t.events t.world t.machine :=
    moved ▸ Machine.run_alone rounds (fun _ _ => trivial) _ _ 52
  obtain ⟨count, worth, within, after, isOver, p', same, stops, active, _⟩ :=
    loop_counts_up rounds_fromCatalogue triggerable .refl arrives rfl rfl run
  have ended : isOver = true := by
    by_contra goesOn
    obtain ⟨_, inner, callers, goesOn⟩ := stops (Bool.eq_false_of_not_eq_true goesOn)
    rw [last] at callers
    exact goesOn (List.append_eq_nil_iff.mp callers.symm).1 finished
  subst ended
  obtain ⟨exchanges, activity, counts⟩ := active (unseen_of_any (same ▸ unseen)).split.1
  exact ⟨_, _, t, count, within, exchanges, p', triggerable, rfl, rfl, arrives, run, worth, activity, counts⟩

end Graph

end FlowGraph
