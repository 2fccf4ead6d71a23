import FlowGraph.Proofs.Contract
import FlowGraph.Proofs.Evaluates

/-!
# Reading through the memo

A pulse's state is *fresh* if everything in its memo is what the output is worth by what has been
published, and everything published has its output's type. Freshness is what every action of a pulse
keeps, evictions included, and what makes reading right: resolving an output of a fresh pulse gives the
output's value and leaves the pulse fresh. The contract of this module says so for all requests of a
pulse; those that let flow go on can be left out of it, which leaves the contract of a pulse that only
reads.
-/

namespace FlowGraph

namespace Pulse

/-- Completing an evaluation that has left no output unwritten only counts it. -/
theorem completeEvaluation_of_written {p : Pulse} {resting : List (Port × Value)}
    (written : ∀ e ∈ resting, p.memo.contains e.1 = true) :
    p.completeEvaluation resting = { p with evaluations := p.evaluations + 1 } := by
  rw [completeEvaluation]
  generalize hq : ({ p with evaluations := p.evaluations + 1 } : Pulse) = q
  have same : q.memo = p.memo := by rw [← hq]
  clear hq
  induction resting with
  | nil => rfl
  | cons e rest ih =>
      have kept : q.memoize e.1 e.2 = q := by
        simp only [memoize, Table.insertNew, same, written e (List.mem_cons_self ..), if_true]
        rw [← same]
      simp only [List.foldl_cons, kept]
      exact ih fun e' he' => written e' (List.mem_cons_of_mem _ he')

end Pulse

namespace Graph

/-- What is known of a pulse's state at all times: what it has published has the right type, and its
memo holds current values of pure nodes. -/
structure Fresh (g : Graph) (p : Pulse) : Prop where
  typed : g.Typed p.published.get?
  pure : ∀ output v, p.memo.get? output = some v → g.isPure output.node = true
  current : ∀ output v, p.memo.get? output = some v → g.Evaluates p.published.get? output v

/-- One state of a pulse comes from another by reading only. -/
structure ReadFrom (g : Graph) (p p' : Pulse) : Prop where
  fresh : g.Fresh p'
  published : p'.published = p.published

/-- An input that a node of a graph declares. -/
def Takes (g : Graph) (input : Port) (i : Input) : Prop :=
  ∃ m, g.member? input.node = some m ∧ m.descriptor.inputs[input.index]? = some i

/-- What an input with a given declaration is worth: what its source is worth, or its resting value. -/
def InputIs (g : Graph) (published : Port → Option Value) (input : Port) (i : Input)
    (v : Option Value) : Prop :=
  (∃ source u, g.first? input = some source ∧ g.Evaluates published source u ∧ u.type = i.type ∧
    v = some u) ∨ g.first? input = none ∧ v = i.resting?

/-- A node that flow can come to. -/
def IsDriven (g : Graph) (n : NodeId) : Prop :=
  ∃ m, g.member? n = some m ∧ m.node.isPure = false

/-- Resetting a node clears its store, which keeps values of a type. -/
def Restores (g : Graph) (n : NodeId) (t : ValueType) : Prop :=
  ∃ m, g.member? n = some m ∧ .store t ∈ m.node.reset

/-- The actions of a fresh pulse. Those that reading does not need are possible only while flow goes
on. -/
def Permits (g : Graph) (flow : Prop) (p : Pulse) : Action → Prop
  | .memoized _ | .published _ | .countHit => True
  | .memoize output v => g.isPure output.node = true ∧ g.Evaluates p.published.get? output v
  | .completeEvaluation resting => ∀ e ∈ resting, p.memo.contains e.1 = true
  | .publish output v dependents =>
    flow ∧ g.isPure output.node = false ∧ dependents = g.dependents output ∧
      ∃ o, g.Declares output o ∧ v.type = o.type
  | .observe input t v => flow ∧ v.type = t ∧ ∃ i, g.Takes input i ∧ i.type = t
  | .remember n v => flow ∧ g.Restores n v.type
  | .update n t _ => flow ∧ g.Restores n t
  | .pulseId | .cell _ | .setCell .. | .cancel | .shutDown | .reset _ => False
  | _ => flow

variable {g : Graph} {flow : Prop} {may : NodeId → Prop} {p p' : Pulse} {output : Port} {v : Value}

/-- A single input is worth a value of its declared type. -/
theorem InputIs.exists_of {published : Port → Option Value} {input : Port} {i : Input}
    {v : Option Value} (h : g.InputIs published input i v) (single : i.isList = false) :
    ∃ c, v = some (.of i.type c) := by
  rcases h with ⟨source, u, _, _, typed, rfl⟩ | ⟨_, rfl⟩
  · obtain ⟨c, hc⟩ := Option.isSome_iff_exists.mp (Value.isSome_as?_iff.mpr typed)
    exact ⟨c, congrArg some (Value.as?_eq_some_iff.mp hc)⟩
  · obtain ⟨name, type, arity⟩ := i
    cases arity with
    | single resting required reactive => exact ⟨resting, rfl⟩
    | list => cases single

theorem ReadFrom.refl (fresh : g.Fresh p) : g.ReadFrom p p :=
  ⟨fresh, rfl⟩

theorem ReadFrom.trans {p'' : Pulse} (h : g.ReadFrom p p') (h' : g.ReadFrom p' p'') :
    g.ReadFrom p p'' :=
  ⟨h'.fresh, h'.published.trans h.published⟩

/-- Memoising a current value keeps a pulse fresh. -/
theorem Fresh.memoize (h : g.Fresh p) (pure : g.isPure output.node = true)
    (value : g.Evaluates p.published.get? output v) : g.Fresh (p.memoize output v) where
  typed := h.typed
  pure o u found := by
    rw [Pulse.memoize, Table.get?_insertNew] at found
    split at found
    next same => exact same ▸ pure
    next => exact h.pure o u found
  current o u found := by
    rw [Pulse.memoize, Table.get?_insertNew] at found
    split at found
    next same =>
      subst same
      cases old : p.memo.get? o with
      | none =>
          rw [old] at found
          cases found
          exact value
      | some u' =>
          rw [old] at found
          cases found
          exact h.current o u' old
    next => exact h.current o u found

/-- Publishing keeps a pulse fresh: what is not evicted does not depend on the output. -/
theorem Fresh.publish (catalogue : g.FromCatalogue) (h : g.Fresh p)
    (driven : g.isPure output.node = false) (typed : ∃ o, g.Declares output o ∧ v.type = o.type) :
    g.Fresh (p.publish output v (g.dependents output)) where
  typed o u found := by
    simp only [Pulse.publish, Table.get?_insert] at found
    split at found
    next same =>
      cases found
      exact same ▸ typed
    next => exact h.typed o u found
  pure o u found := by
    simp only [Pulse.publish, Table.get?_filterKeys, Option.ite_none_right_eq_some] at found
    exact h.pure o u found.2
  current o u found := by
    simp only [Pulse.publish, Table.get?_filterKeys, Option.ite_none_right_eq_some] at found
    obtain ⟨free, found⟩ := found
    have pure := h.pure o u found
    refine catalogue.evaluates_of_publish driven (fun other differs => ?_) (h.current o u found) ?_
      (by simpa using free)
    · exact Table.get?_insert_of_ne _ _ differs
    · rintro rfl
      rw [driven] at pure
      cases pure

/-- Every action that is permitted keeps a pulse fresh. -/
theorem Fresh.perform (catalogue : g.FromCatalogue) (h : g.Fresh p) {a : Action} {w : World}
    (permits : g.Permits flow p a) : g.Fresh (a.perform w p).2.2 := by
  cases a with
  | memoize output v => exact h.memoize permits.1 permits.2
  | completeEvaluation resting =>
      simp only [Action.perform, Pulse.completeEvaluation_of_written permits]
      exact ⟨h.typed, h.pure, h.current⟩
  | publish output v dependents =>
      obtain ⟨_, driven, rfl, typed⟩ := permits
      exact h.publish catalogue driven typed
  | _ => exact ⟨h.typed, h.pure, h.current⟩

theorem Fresh.begin (h : g.Fresh p) (n : NodeId) (list : Bool) : g.Fresh (p.begin n list) :=
  ⟨h.typed, h.pure, h.current⟩

/-- The requests of a pulse that stays fresh. Whether flow goes on, and which nodes may be computed, are
left open. -/
def reading (g : Graph) (flow : Prop) (may : NodeId → Prop) : Contract Pulse where
  pre n r p := g.Fresh p ∧
    match r with
    | .act a => g.Permits flow p a
    | .evaluate k _ => g.isPure k = true ∧ may k
    | .activate k _ => flow ∧ g.IsDriven k
    | .sleep _ | .rest => flow
    | .restart => flow ∧ g.IsDriven n
    | .abort cause => flow ∧ ∃ name limit, cause = .flowDepthExceeded name limit
    | .pulse _ => False
  post
    | .act a, reply, p, p' => g.Fresh p' ∧ ∃ w, (a.perform w p).1 = reply ∧ (a.perform w p).2.2 = p'
    | .evaluate k _, _, p, p' =>
      g.ReadFrom p p' ∧ ∀ output ∈ g.outputs k, p'.memo.contains output = true
    | .activate .., _, _, p' => g.Fresh p'
    | .sleep _, _, p, p' | .rest, _, p, p' => p' = p
    | .restart, _, _, _ | .abort _, _, _, _ | .pulse _, _, _, _ => True

section

variable {s : Scope} {back : Pulse → Prop} {Q : Unit → Pulse → Prop}

theorem wp_act {a : Action} {Q : a.Reply → Pulse → Prop} (fresh : g.Fresh p)
    (permits : g.Permits flow p a)
    (next : ∀ w, g.Fresh (a.perform w p).2.2 → Q (a.perform w p).1 (a.perform w p).2.2) :
    (Engine.act a).wp ((g.reading flow may).Spec s back) Q p where
  allowed := ⟨fresh, permits⟩
  goesOn := by
    rintro reply p' ⟨fresh', w, rfl, rfl⟩
    exact next w fresh'
  startsOver := trivial

theorem wp_evaluate {n : NodeId} {depth : Nat} (fresh : g.Fresh p) (pure : g.isPure n = true)
    (mayCompute : may n)
    (next : ∀ p', g.ReadFrom p p' → (∀ output ∈ g.outputs n, p'.memo.contains output = true) →
      Q () p') :
    Program.wp ((g.reading flow may).Spec s back) (.ask (.evaluate n depth) .done) Q p where
  allowed := ⟨fresh, pure, mayCompute⟩
  goesOn _ p' post := next p' post.1 post.2
  startsOver := trivial

/-- What resolving an output gives is what the output is worth. -/
theorem wp_resolve {depth : Nat} {o : Output} {Q : Value → Pulse → Prop} (fresh : g.Fresh p)
    (declares : g.Declares output o) (mayCompute : g.isPure output.node = true → may output.node)
    (next : ∀ v p', g.ReadFrom p p' → g.Evaluates p.published.get? output v → Q v p') :
    (Engine.resolve g depth output).wp ((g.reading flow may).Spec s back) Q p := by
  have ⟨m, member, declared⟩ := declares
  have outputs : ∀ e ∈ Engine.restingOutputs output.node m, e.1 ∈ g.outputs output.node := by
    intro e he
    simp only [Engine.restingOutputs, List.mem_map] at he
    obtain ⟨⟨out, i⟩, place, rfl⟩ := he
    obtain ⟨bound, _⟩ := List.getElem?_eq_some_iff.mp (List.mem_zipIdx_iff_getElem?.mp place)
    exact Declares.mem_outputs ⟨m, member, List.getElem?_eq_getElem bound⟩
  simp only [Engine.resolve, Engine.member, member, declared, Program.pure_eq, Program.bind_eq,
    Program.done_andThen]
  split
  next pure =>
    have isPure : g.isPure output.node = true := by simpa [Graph.isPure, member] using pure
    rw [Program.wp_andThen]
    refine wp_act fresh trivial ?_
    intro w fresh'
    cases found : p.memo.get? output with
    | some v =>
        simp only [Action.perform, found, Program.wp_andThen]
        refine wp_act fresh' trivial ?_
        intro w fresh''
        exact next v _ ⟨fresh'', rfl⟩ (fresh.current output v found)
    | none =>
        simp only [Action.perform, found, Program.wp_andThen]
        apply wp_evaluate fresh' isPure (mayCompute isPure)
        intro p' read written
        have complete : ∀ e ∈ Engine.restingOutputs output.node m, p'.memo.contains e.1 = true :=
          fun e he => written e.1 (outputs e he)
        refine wp_act read.fresh complete ?_
        intro w fresh''
        have same : (Action.perform w p' (.completeEvaluation
            (Engine.restingOutputs output.node m))).2.2 =
              { p' with evaluations := p'.evaluations + 1 } :=
          Pulse.completeEvaluation_of_written complete
        rw [same] at fresh'' ⊢
        refine wp_act fresh'' trivial ?_
        intro w fresh3
        obtain ⟨v, value⟩ := Option.isSome_iff_exists.mp (written output declares.mem_outputs)
        have current := read.fresh.current output v value
        rw [read.published] at current
        simp only [Action.perform, value, Option.getD_some, Program.wp_done]
        exact next v _ ⟨fresh'', read.published⟩ current
  next driven =>
    rw [Program.wp_andThen]
    refine wp_act fresh trivial ?_
    intro w fresh'
    exact next _ _ (.refl fresh') (.driven member declared (by simpa using driven))

theorem wp_resolveAll {depth : Nat} {outputs : List Port} {Q : List Value → Pulse → Prop}
    (fresh : g.Fresh p) (declares : ∀ output ∈ outputs, ∃ o, g.Declares output o)
    (mayCompute : ∀ output ∈ outputs, may output.node)
    (next : ∀ vs p', g.ReadFrom p p' → List.Forall₂ (g.Evaluates p.published.get?) outputs vs →
      Q vs p') :
    (Engine.resolveAll g depth outputs).wp ((g.reading flow may).Spec s back) Q p := by
  induction outputs generalizing p Q with
  | nil => exact next [] p (.refl fresh) .nil
  | cons output outputs ih =>
      simp only [Engine.resolveAll, Program.bind_eq, Program.pure_eq, Program.wp_andThen]
      obtain ⟨o, declared⟩ := declares output (List.mem_cons_self ..)
      refine wp_resolve fresh declared (fun _ => mayCompute output (List.mem_cons_self ..))
        fun v p' read value => ?_
      refine ih read.fresh (fun out later => declares out (List.mem_cons_of_mem _ later))
        (fun out later => mayCompute out (List.mem_cons_of_mem _ later)) fun vs p'' read' values => ?_
      rw [read.published] at values
      exact next (v :: vs) p'' (read.trans read') (.cons value values)

/-- Outputs of one type are worth what some function of them says. -/
theorem exists_values {published : Port → Option Value} {t : ValueType} {outputs : List Port}
    {vs : List Value} (values : List.Forall₂ (g.Evaluates published) outputs vs)
    (typed : ∀ output ∈ outputs, ∀ v, g.Evaluates published output v → v.type = t) :
    ∃ value : Port → t.Carrier,
      (∀ output ∈ outputs, g.Evaluates published output (.of t (value output))) ∧
      vs = outputs.map fun output => .of t (value output) := by
  classical
  let value : Port → t.Carrier := fun output =>
    if h : ∃ c, g.Evaluates published output (.of t c) then h.choose else t.zero
  have exact : ∀ output v, g.Evaluates published output v → v.type = t →
      g.Evaluates published output (.of t (value output)) ∧ v = .of t (value output) := by
    intro output v worth type
    obtain ⟨c, hc⟩ := Option.isSome_iff_exists.mp (Value.isSome_as?_iff.mpr type)
    obtain rfl := Value.as?_eq_some_iff.mp hc
    have known : ∃ c, g.Evaluates published output (.of t c) := ⟨c, worth⟩
    have chosen : g.Evaluates published output (.of t (value output)) := by
      simp only [value, dif_pos known]
      exact known.choose_spec
    exact ⟨chosen, worth.unique chosen⟩
  refine ⟨value, ?_⟩
  induction values with
  | nil => simp
  | @cons output v outputs vs worth _ ih =>
      obtain ⟨rest, same⟩ := ih fun out later => typed out (List.mem_cons_of_mem _ later)
      obtain ⟨chosen, eq⟩ := exact output v worth (typed output (List.mem_cons_self ..) v worth)
      refine ⟨fun out member => ?_, by rw [List.map_cons, ← eq, ← same]⟩
      rcases List.mem_cons.mp member with rfl | later
      · exact chosen
      · exact rest out later

/-- Values that have the type expected are taken as they are. -/
theorem mapM_expect (s : Scope) (index : Nat) {t : ValueType} (cs : List t.Carrier) :
    ((cs.map (Value.of t)).mapM fun v => Engine.expect s index t (some v)) = Program.done cs := by
  induction cs with
  | nil => rfl
  | cons c cs ih =>
      have taken : Engine.expect s index t (some (.of t c)) = Program.done c := by
        simp [Engine.expect]
      rw [List.map_cons, List.mapM_cons, taken, ih]
      rfl

variable {index : Nat} {i : Input}

theorem wp_declaredInput {Q : Input → Pulse → Prop} (takes : g.Takes ⟨s.node, index⟩ i)
    (next : Q i p) :
    (Engine.declaredInput g s index).wp ((g.reading flow may).Spec s back) Q p := by
  obtain ⟨m, member, declared⟩ := takes
  simp only [Engine.declaredInput, Engine.member, member, declared, Program.bind_eq,
    Program.pure_eq, Program.done_andThen, Program.wp_done]
  exact next

variable (catalogue : g.FromCatalogue) (fresh : g.Fresh p) (takes : g.Takes ⟨s.node, index⟩ i)
  (mayCompute : ∀ k, Blueprint.Feeds g.valueEdges k s.node → may k)

include catalogue fresh takes mayCompute

theorem wp_inputValue {Q : Option Value → Pulse → Prop}
    (next : ∀ v p', g.ReadFrom p p' → g.InputIs p.published.get? ⟨s.node, index⟩ i v → Q v p') :
    (Engine.inputValue g s index).wp ((g.reading flow may).Spec s back) Q p := by
  rw [Engine.inputValue, Program.bind_eq, Program.wp_andThen]
  refine wp_declaredInput takes ?_
  have ⟨m, member, declared⟩ := takes
  split
  next source others connected =>
    have first : g.first? ⟨s.node, index⟩ = some source := by rw [first?, connected]; rfl
    have mem := mem_sources_of_first? first
    obtain ⟨o, declares, same⟩ := catalogue.source member declared mem
    rw [Program.bind_eq, Program.wp_andThen]
    refine wp_resolve fresh declares (fun _ => mayCompute _ (feeds_of_mem_sources mem))
      fun v p' read value => ?_
    obtain ⟨o', declares', typed⟩ := value.typed fresh.typed
    obtain rfl := declares.unique declares'
    exact next (some v) p' read (.inl ⟨source, v, first, value, typed.trans same, rfl⟩)
  next unconnected =>
    have first : g.first? ⟨s.node, index⟩ = none := by rw [first?, unconnected]; rfl
    exact next _ p (.refl fresh) (.inr ⟨first, rfl⟩)

/-- Reading a single input as a value of its declared type gives what the input is worth. -/
theorem wp_input (single : i.isList = false) {Q : i.type.Carrier → Pulse → Prop}
    (next : ∀ c p', g.ReadFrom p p' →
      g.InputIs p.published.get? ⟨s.node, index⟩ i (some (.of i.type c)) → Q c p') :
    (Engine.answer g s (.input index i.type)).wp ((g.reading flow may).Spec s back) Q p := by
  rw [Engine.answer, Program.bind_eq, Program.wp_andThen]
  apply wp_inputValue catalogue fresh takes mayCompute
  intro v p' read worth
  obtain ⟨c, rfl⟩ := worth.exists_of single
  simp only [Engine.expect, Option.bind_some, Value.as?_of, Program.pure_eq, Program.wp_done]
  exact next c p' read worth

/-- Reading an input as a list of values of its declared type gives what its sources are worth. -/
theorem wp_inputs {Q : List i.type.Carrier → Pulse → Prop}
    (next : ∀ value : Port → i.type.Carrier, ∀ p', g.ReadFrom p p' →
      (∀ source ∈ g.sources ⟨s.node, index⟩,
        g.Evaluates p.published.get? source (.of i.type (value source))) →
      Q ((g.sources ⟨s.node, index⟩).map value) p') :
    (Engine.answer g s (.inputs index i.type)).wp ((g.reading flow may).Spec s back) Q p := by
  have ⟨m, member, declared⟩ := takes
  rw [Engine.answer, Engine.inputValues, Program.bind_eq, Program.wp_andThen]
  refine wp_declaredInput takes ?_
  rw [Program.bind_eq, Program.wp_andThen]
  refine wp_resolveAll fresh (fun source connected => ?_)
    (fun source connected => mayCompute _ (feeds_of_mem_sources connected)) fun vs p' read values => ?_
  · obtain ⟨o, declares, _⟩ := catalogue.source member declared connected
    exact ⟨o, declares⟩
  · obtain ⟨value, worth, rfl⟩ := exists_values (t := i.type) values fun source connected v worth => by
      obtain ⟨o, declares, same⟩ := catalogue.source member declared connected
      obtain ⟨o', declares', typed⟩ := worth.typed fresh.typed
      obtain rfl := declares.unique declares'
      exact typed.trans same
    have taken := mapM_expect s index ((g.sources ⟨s.node, index⟩).map value)
    rw [List.map_map] at taken
    exact (congrArg (Program.wp _ · Q p') taken).mpr (next value p' read worth)

end

end Graph

end FlowGraph
