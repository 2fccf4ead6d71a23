import FlowGraph.Proofs.Exchanges
import FlowGraph.Proofs.Updating

/-!
# Loops with a condition

A loop with a condition reads it before every round, and what it reads is what the condition is worth at that
moment. The interval is read along with it, and only decides how the loop waits before the next round. So a
loop that has come to its end has read that the condition holds before every round that it has made, and
after the last one that it does not hold.
-/

namespace FlowGraph

namespace Engine

variable {g : Graph} {s : Scope} {process : NodeProgram Unit} {p p' : Pulse} {exchanges : List Exchange}
  {steps : Nat} {events : List Event}

/-- A round of a loop whose condition holds: after what is to be done, it waits as long as the interval
says. -/
def whileRound (interval : Int32) : List ((r : NodeRequest) × Option r.Reply) :=
  [⟨.isCancelled, some false⟩, ⟨.input 0 .bool, some true⟩, ⟨.input 1 .int, some interval⟩,
    ⟨.fire 0, some ()⟩,
    if 0 < interval.toInt then ⟨.delay interval.toInt.toNat, some true⟩ else ⟨.rest, some ()⟩]

/-- A loop whose condition does not hold leaves, whatever the interval is. -/
def whileEnd (interval : Int32) : List ((r : NodeRequest) × Option r.Reply) :=
  [⟨.isCancelled, some false⟩, ⟨.input 0 .bool, some false⟩, ⟨.input 1 .int, some interval⟩,
    ⟨.isCancelled, some false⟩, ⟨.fire 1, some ()⟩]

/-- A pulse that does not find itself cancelled goes on. -/
theorem Pursued.of_isCancelled {α : Type} {next : Bool → Engine α} {a : α} (unseen : Unseen events)
    (h : Pursued g s (.ask (.act .isCancelled) next) steps p events p' (some a)) :
    ∃ fewer p₁ later, Unseen later ∧ Pursued g s (next false) fewer p₁ later p' (some a) := by
  obtain ⟨w, fewer, later, rfl, rest⟩ := h.of_act
  generalize found : (Action.perform w p .isCancelled).1 = cancelled at rest unseen
  cases cancelled with
  | true => exact absurd (List.mem_cons_self ..) unseen
  | false => exact ⟨fewer, _, later, unseen.tail, rest⟩

/-- A wait is cut short only if the pulse finds itself cancelled. -/
theorem Pursued.passes_delay {milliseconds : Nat} {passed : Bool} (unseen : Unseen events)
    (h : Pursued g s (delay milliseconds) steps p events p' (some passed)) : passed = true := by
  have ends {steps : Nat} {p : Pulse} {events : List Event} (unseen : Unseen events)
      (h : Pursued g s delayEnd steps p events p' (some passed)) : passed = true := by
    obtain ⟨_, _, _, _, rest⟩ := h.of_isCancelled unseen
    obtain ⟨_, _, _, _, last⟩ := rest.of_act
    exact last.eq_of_done.1
  have starts {steps : Nat} {p : Pulse} {events : List Event} (unseen : Unseen events)
      (h : Pursued g s (delayStart milliseconds) steps p events p' (some passed)) : passed = true := by
    obtain ⟨fewer, p₁, later, unseen', rest⟩ := h.of_isCancelled unseen
    simp only [Bool.false_eq_true, if_false] at rest
    split at rest
    · obtain ⟨_, woken⟩ := rest.of_sleep
      exact ends unseen' woken
    · exact ends unseen' rest
  rw [delay_eq] at h
  obtain ⟨w, fewer, later, rfl, rest⟩ := h.of_act
  split at rest
  · obtain ⟨_, back⟩ := rest.of_rest
    exact starts unseen.tail back
  · exact starts unseen.tail rest

/-- What is over has had a reply to its first request. -/
theorem Does.first {r : NodeRequest} {next : r.Reply → NodeProgram Unit}
    (h : Does g s process (.ask r next) p exchanges p' true) (starts : r ≠ .again) :
    ∃ steps events p₁ reply later, exchanges = ⟨r, some reply, events⟩ :: later ∧
      Pursued g s (answer g s r) steps p events p₁ (some reply) ∧
      Does g s process (next reply) p₁ later p' true := by
  rcases h.ask_cases starts with ⟨_, goesOn⟩ | ⟨_, _, _, goesOn, _⟩ | answered
  · cases goesOn
  · cases goesOn
  · exact answered

theorem Does.starts_over {next : Empty → NodeProgram Unit}
    (h : Does g s process (.ask .again next) p exchanges p' true) :
    Does g s process process p exchanges p' true := by
  cases h with
  | again rest => exact rest
  | answered starts => exact absurd rfl starts

/-- A pulse that looks whether it is cancelled and does not find itself so has its reply. -/
theorem Does.looks {next : Bool → NodeProgram Unit} (unseen : Unseen (exchanges.flatMap (·.events)))
    (h : Does g s process (.ask .isCancelled next) p exchanges p' true) :
    ∃ p₁ taken later, exchanges = ⟨.isCancelled, some false, taken⟩ :: later ∧
      Does g s process (next false) p₁ later p' true := by
  rcases h.look_cases unseen with ⟨_, goesOn⟩ | ⟨_, _, goesOn⟩ | ⟨p₁, later, same, rest⟩
  · cases goesOn
  · cases goesOn
  · exact ⟨p₁, _, later, same, rest⟩

/-- A loop whose condition holds makes a round and starts over, and otherwise it leaves. -/
theorem Does.whileTrue (loop : process = CatalogueNode.fireWhileTrue.process)
    (unseen : Unseen (exchanges.flatMap (·.events))) (h : Does g s process process p exchanges p' true) :
    (∃ interval round later p₁, exchanges = round ++ later ∧ round.map (·.told) = whileRound interval ∧
        Does g s process process p₁ later p' true) ∨
      ∃ interval, exchanges.map (·.told) = whileEnd interval := by
  nth_rewrite 2 [loop] at h
  obtain ⟨p₁, looked, exchanges₁, rfl, live⟩ := h.looks unseen
  obtain ⟨_, read, p₂, condition, exchanges₂, rfl, _, conditioned⟩ := live.first (by simp)
  obtain ⟨_, read', p₃, interval, exchanges₃, rfl, _, decided⟩ := conditioned.first (by simp)
  have unseen₃ : Unseen (exchanges₃.flatMap (·.events)) := unseen.split.2.split.2.split.2
  cases condition with
  | false =>
      obtain ⟨p₄, looked', exchanges₄, rfl, live'⟩ := decided.looks unseen₃
      obtain ⟨_, left, p₅, _, exchanges₅, rfl, _, ended⟩ := live'.first (by simp)
      cases ended
      exact .inr ⟨interval, rfl⟩
  | true =>
      obtain ⟨_, fired, p₄, _, exchanges₄, rfl, _, done⟩ := decided.first (by simp)
      have unseen₄ : Unseen (exchanges₄.flatMap (·.events)) := unseen₃.split.2
      refine .inl ⟨interval, ?_⟩
      by_cases waits : 0 < interval.toInt
      · simp only [Program.pure_eq, Program.bind_eq, waits, if_true] at done
        obtain ⟨_, waited, p₅, passed, later, rfl, wait, awake⟩ := done.first (by simp)
        obtain rfl := Pursued.passes_delay unseen₄.split.1 wait
        refine ⟨[_, _, _, _, _], later, p₅, rfl, ?_, Does.starts_over awake⟩
        simp [whileRound, waits, Exchange.told]
      · simp only [Program.pure_eq, Program.bind_eq, waits, if_false] at done
        obtain ⟨_, rested, p₅, _, later, rfl, _, back⟩ := done.first (by simp)
        refine ⟨[_, _, _, _, _], later, p₅, rfl, ?_, Does.starts_over back⟩
        simp [whileRound, waits, Exchange.told]

/-- A loop that has come to its end has made some rounds, before each of which the condition held, and has
left once the condition did not hold. -/
theorem Does.rereads (loop : process = CatalogueNode.fireWhileTrue.process)
    (unseen : Unseen (exchanges.flatMap (·.events))) (h : Does g s process process p exchanges p' true) :
    ∃ (intervals : List Int32) (last : Int32),
      exchanges.map (·.told) = intervals.flatMap whileRound ++ whileEnd last := by
  -- What is left after a round is shorter, although the process is the same.
  induction rounds : exchanges.length using Nat.strong_induction_on generalizing exchanges p with
  | _ length ih =>
      rcases h.whileTrue loop unseen with ⟨interval, round, later, p₁, rfl, told, goesOn⟩ | ⟨interval, told⟩
      · rw [List.flatMap_append] at unseen
        have nonempty : round.length = 5 := by simpa [whileRound] using congrArg List.length told
        have shorter : later.length < length := by
          rw [← rounds, List.length_append]
          omega
        obtain ⟨intervals, last, rest⟩ := ih _ shorter unseen.split.2 goesOn rfl
        refine ⟨interval :: intervals, last, ?_⟩
        rw [List.map_append, told, rest, List.flatMap_cons, List.append_assoc]
      · exact ⟨[], interval, told⟩

end Engine

namespace Graph

open Engine

variable {g : Graph}

/-- At every point of a run from where flow is let into a loop with a condition, the activation of the loop is
under way, or it has been over. Whenever the loop has read its condition, it has read what the condition was
worth at that moment. Unless it has found itself cancelled, a loop that is over has read that the condition
holds before every round that it has made, and then that it does not hold any more, and has left. -/
theorem loop_rereads_condition (catalogue : g.FromCatalogue) {root n : NodeId} {r k : Member}
    (triggerable : g.root root = .ok r) {w₀ w w' : World} {token : TokenId} {earlier events : List Event}
    {m m' : Machine}
    (before : Machine.Run g (fun _ _ => True) (Machine.start g w₀ root token).1
      (Machine.start g w₀ root token).2 earlier w m)
    (arrives : m.Arrives g n) (member : g.member? n = some k)
    (loop : k.node = CatalogueNode.fireWhileTrue.node)
    (run : Machine.Run g (fun _ _ => True) w m events w' m') :
    ∃ within after isOver p', events = within ++ after ∧
      (isOver = false → after = [] ∧ m'.Inside m.callers) ∧
      (Unseen within → ∃ exchanges, Activity g m.scope k m.pulse within exchanges p' isOver ∧
        (isOver = true → ∃ (intervals : List Int32) (last : Int32),
          exchanges.map (·.told) = intervals.flatMap whileRound ++ whileEnd last) ∧
        ∀ past condition taken later, exchanges = past ++ ⟨.input 0 .bool, some condition, taken⟩ :: later →
          ∀ v, g.InputIs (lastPublished (earlier ++ (opening g m.scope ++ past.flatMap (·.events)))) ⟨n, 0⟩
            ⟨"Condition", .bool, .single false false false⟩ v ↔ v = some (.bool condition)) := by
  have underWay := underWay_of_run catalogue triggerable before
  have known := published_of_run catalogue triggerable before
  have declared : k.descriptor.inputs[0]? = some ⟨"Condition", .bool, .single false false false⟩ := by
    rw [Member.descriptor, loop]
    rfl
  have accepts : k.descriptor.flowInput = true := by
    rw [Member.descriptor, loop]
    rfl
  have driven : k.node.isPure = false := by
    rw [loop]
    rfl
  have suits : k.node.process.Asks k.node.Suits := (catalogue.suits member).2
  obtain ⟨within, after, isOver, p', same, stops, active⟩ :=
    run.activity catalogue underWay arrives member accepts
  refine ⟨within, after, isOver, p', same, stops, fun unseen => ?_⟩
  obtain ⟨exchanges, activity⟩ := active unseen
  refine ⟨exchanges, activity, ?_⟩
  obtain ⟨rfl, _⟩ := arrives
  cases activity with
  | entered | live =>
      refine ⟨by simp, fun past _ _ _ none => ?_⟩
      cases past <;> cases none
  | begun does =>
      refine ⟨?_, fun past condition taken later read v => ?_⟩
      · rintro rfl
        exact does.rereads (congrArg Node.process loop) unseen.tail.tail
      · rw [← lastPublished_opening earlier m.scope] at known
        have worth := does.current catalogue member driven suits suits
          (underWay.fresh.begin m.scope.node _) known declared rfl read
        rw [List.append_assoc] at worth
        exact ⟨fun worth' => worth'.unique worth, fun same => same ▸ worth⟩

/-- A loop whose condition is that another node has just become true. The loop itself makes that node see the
same condition again. -/
def lapse : Graph where
  name := "lapse"
  config := {}
  members := [⟨"entry", CatalogueNode.onTrigger.node⟩, ⟨"loop", CatalogueNode.fireWhileTrue.node⟩,
    ⟨"edge", CatalogueNode.branchWithState.node⟩, ⟨"on", (CatalogueNode.constant (.bool true)).node⟩]
  valueEdges := [⟨⟨⟨3⟩, 0⟩, ⟨⟨2⟩, 0⟩⟩, ⟨⟨⟨2⟩, 0⟩, ⟨⟨1⟩, 0⟩⟩]
  flowEdges := [⟨⟨⟨0⟩, 0⟩, ⟨2⟩⟩, ⟨⟨⟨0⟩, 0⟩, ⟨1⟩⟩, ⟨⟨⟨1⟩, 0⟩, ⟨2⟩⟩]

/-- The calls that make the loop that lapses. -/
def lapseCalls : List Blueprint.Call :=
  [.add "entry" CatalogueNode.onTrigger.node, .add "loop" CatalogueNode.fireWhileTrue.node,
    .add "edge" CatalogueNode.branchWithState.node, .add "on" (CatalogueNode.constant (.bool true)).node,
    .connectValue ⟨"on", "Value", "edge", "Condition"⟩,
    .connectValue ⟨"edge", "Became True", "loop", "Condition"⟩,
    .connectFlow ⟨"entry", "Next", "edge"⟩, .connectFlow ⟨"entry", "Next", "loop"⟩,
    .connectFlow ⟨"loop", "Loop", "edge"⟩]

theorem lapse_fromCatalogue : lapse.FromCatalogue where
  built := ⟨"lapse", {}, lapseCalls, by cbv⟩
  nodes m member := by
    simp only [lapse, List.mem_cons, List.not_mem_nil, or_false] at member
    rcases member with rfl | rfl | rfl | rfl <;> exact ⟨_, rfl⟩

/-- The loop that lapses, once it is over, has left as soon as it has read that the condition does not hold any
more. -/
theorem loop_rereads_condition_lapse :
    ∃ r k, ∃ s t : Trace, ∃ (within : List Event) (exchanges : List Exchange) (p' : Pulse)
      (intervals : List Int32) (last : Int32), lapse.root ⟨0⟩ = .ok r ∧
      Machine.Run lapse (fun _ _ => True) (Machine.start lapse {} ⟨0⟩ ⟨0⟩).1
        (Machine.start lapse {} ⟨0⟩ ⟨0⟩).2 s.events s.world s.machine ∧
      s.machine.Arrives lapse ⟨1⟩ ∧ lapse.member? ⟨1⟩ = some k ∧
      k.node = CatalogueNode.fireWhileTrue.node ∧
      Machine.Run lapse (fun _ _ => True) s.world s.machine t.events t.world t.machine ∧
      Activity lapse s.machine.scope k s.machine.pulse within exchanges p' true ∧
      exchanges.map (·.told) = intervals.flatMap whileRound ++ whileEnd last := by
  have triggerable : lapse.root ⟨0⟩ = .ok ⟨"entry", CatalogueNode.onTrigger.node⟩ := rfl
  have before : Machine.Run lapse (fun _ _ => True) _ _ _ _ _ :=
    Machine.run_alone lapse (fun _ _ => trivial) (Machine.start lapse {} ⟨0⟩ ⟨0⟩).1
      (Machine.start lapse {} ⟨0⟩ ⟨0⟩).2 21
  obtain ⟨s, came, arrives, waits⟩ :
      ∃ s : Trace, s = Machine.alone lapse (Machine.start lapse {} ⟨0⟩ ⟨0⟩).1
          (Machine.start lapse {} ⟨0⟩ ⟨0⟩).2 21 ∧
        s.machine.Arrives lapse ⟨1⟩ ∧ s.machine.callers.length = 1 :=
    ⟨_, rfl, ⟨rfl, rfl⟩, rfl⟩
  rw [← came] at before
  -- The second round is short, and starts from where the first one has been computed to lead.
  obtain ⟨t, moved, unseen₁, gone, unseen₂⟩ : ∃ t : Trace, Machine.alone lapse s.world s.machine 15 = t ∧
      t.events.any Event.findsCancelled = false ∧
      (Machine.alone lapse t.world t.machine 10).machine.callers.length = 0 ∧
      (Machine.alone lapse t.world t.machine 10).events.any Event.findsCancelled = false := by
    subst came
    generalize moved : Machine.alone lapse _ _ 15 = t
    refine ⟨t, rfl, ?_⟩
    cbv at moved
    subst moved
    exact ⟨rfl, rfl, rfl⟩
  have first : Machine.Run lapse (fun _ _ => True) _ _ _ _ _ :=
    Machine.run_alone lapse (fun _ _ => trivial) s.world s.machine 15
  rw [moved] at first
  have run := first.trans (Machine.run_alone lapse (fun _ _ => trivial) t.world t.machine 10)
  have unseen : (t.events ++ (Machine.alone lapse t.world t.machine 10).events).any
      Event.findsCancelled = false := by
    rw [List.any_append, unseen₁, unseen₂, Bool.or_false]
  obtain ⟨within, after, isOver, p', same, stops, active⟩ :=
    loop_rereads_condition lapse_fromCatalogue triggerable before arrives rfl rfl run
  have ended : isOver = true := by
    by_contra goesOn
    obtain ⟨_, inner, callers, _⟩ := stops (Bool.eq_false_of_not_eq_true goesOn)
    have longer := congrArg List.length callers
    rw [List.length_append, gone, waits] at longer
    omega
  subst ended
  obtain ⟨exchanges, activity, rounds, _⟩ := active (unseen_of_any (same ▸ unseen)).split.1
  obtain ⟨intervals, last, told⟩ := rounds rfl
  exact ⟨_, _, s, ⟨_, _, _⟩, within, exchanges, p', intervals, last, triggerable, before, arrives, rfl, rfl,
    run, activity, told⟩

end Graph

end FlowGraph
