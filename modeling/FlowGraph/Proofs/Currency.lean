import Mathlib.Data.List.Permutation
import FlowGraph.Proofs.Nodes

/-!
# Every read is current

A program that only reads comes to its end after finitely many moves, whatever the world is and whatever
follows: its requests are answered at once, except for the computation of another node, and reading is
well-founded. The contract of reading says what it returns. A pulse is fresh at every point of every run,
so at every such point resolving an output returns what the output is worth by the events of the run.
-/

namespace FlowGraph

/-- A move that neither depends on the world nor changes it. -/
def Machine.Goes (g : Graph) (m m' : Machine) : Prop :=
  ∀ w, m.step g w = .running w m'

/-- A program comes to an end by moves that do not concern the world, with a result and a state of the
pulse, and what follows it goes on from there. -/
def Engine.Returns (g : Graph) {α : Type} (p : Pulse) (program : Engine α) (a : α) (p' : Pulse) :
    Prop :=
  ∀ s (next : α → Engine Unit) callers,
    Relation.ReflTransGen (Machine.Goes g) ⟨p, s, program.andThen next, callers⟩
      ⟨p', s, next a, callers⟩

/-- Nothing has changed in a pulse but what reading changes. -/
def Pulse.HasRead (p p' : Pulse) : Prop :=
  ∃ memo evaluations memoHits, p' = { p with memo, evaluations, memoHits }

theorem Pulse.HasRead.trans {p p' p'' : Pulse} (h : p.HasRead p') (h' : p'.HasRead p'') :
    p.HasRead p'' := by
  obtain ⟨_, _, _, rfl⟩ := h
  obtain ⟨memo, evaluations, memoHits, rfl⟩ := h'
  exact ⟨memo, evaluations, memoHits, rfl⟩

/-- Whatever is memoised stays memoised. -/
def Pulse.KeepsMemo (p p' : Pulse) : Prop :=
  ∀ output v, p.memo.get? output = some v → p'.memo.get? output = some v

namespace Graph

variable {g : Graph} {may : NodeId → Prop} {p p' : Pulse} {output : Port} {o : Output}

/-- What reading needs to do does not concern the world. -/
theorem perform_of_permits {a : Action} (permits : g.Permits False p a) (w w' : World) :
    a.perform w p = ((a.perform w' p).1, w, (a.perform w' p).2.2) := by
  cases a with
  | memoized output | published output | countHit | memoize output v | completeEvaluation resting => rfl
  | publish | observe | remember | update => exact permits.1.elim
  | _ => exact permits.elim

/-- What reading does never takes a pulse to a state that is not related to the one before. -/
structure Carries (g : Graph) (R : Pulse → Pulse → Prop) : Prop where
  refl : ∀ p, R p p
  trans : ∀ {p p' p''}, R p p' → R p' p'' → R p p''
  act : ∀ {p a} (w : World), g.Permits False p a → R p (a.perform w p).2.2

/-- What reading needs to do changes nothing but what reading changes. -/
theorem carries_hasRead : g.Carries Pulse.HasRead where
  refl _ := ⟨_, _, _, rfl⟩
  trans := Pulse.HasRead.trans
  act {p a} w permits := by
    cases a with
    | memoized output | published output | countHit | memoize output v => exact ⟨_, _, _, rfl⟩
    | completeEvaluation resting =>
        simp only [Action.perform, Pulse.completeEvaluation_of_written permits]
        exact ⟨_, _, _, rfl⟩
    | publish | observe | remember | update => exact permits.1.elim
    | _ => exact permits.elim

/-- Reading takes nothing out of the memo. -/
theorem carries_keepsMemo : g.Carries Pulse.KeepsMemo where
  refl _ _ _ found := found
  trans h h' output v found := h' output v (h output v found)
  act {p a} w permits output v found := by
    cases a with
    | memoized | published | countHit => exact found
    | memoize o u =>
        simp only [Action.perform, Pulse.memoize, Table.get?_insertNew]
        split
        next same => rw [← same, found]; rfl
        next => exact found
    | completeEvaluation resting =>
        simp only [Action.perform, Pulse.completeEvaluation_of_written permits]
        exact found
    | publish | observe | remember | update => exact permits.1.elim
    | _ => exact permits.elim

theorem Carries.and {R R' : Pulse → Pulse → Prop} (carries : g.Carries R) (carries' : g.Carries R') :
    g.Carries fun p p' => R p p' ∧ R' p p' where
  refl p := ⟨carries.refl p, carries'.refl p⟩
  trans h h' := ⟨carries.trans h.1 h'.1, carries'.trans h.2 h'.2⟩
  act w permits := ⟨carries.act w permits, carries'.act w permits⟩

section

variable (catalogue : g.FromCatalogue) {R : Pulse → Pulse → Prop} (carries : g.Carries R)

include catalogue carries

/-- A program that only reads comes to an end if the nodes that it may compute do. -/
theorem returns_of_wp
    (computes : ∀ k depth p, may k → g.isPure k = true → g.Fresh p →
      ∃ p', Engine.Returns g p (Engine.evaluation g ⟨k, depth⟩) () p' ∧ R p p' ∧
        g.ReadFrom p p' ∧ ∀ output ∈ g.outputs k, p'.memo.contains output = true)
    {α : Type} {program : Engine α} {s : Scope} {back : Pulse → Prop} {Q : α → Pulse → Prop}
    (keeps : program.wp ((g.reading False may).Spec s back) Q p) :
    ∃ a p', Engine.Returns g p program a p' ∧ R p p' ∧ Q a p' := by
  induction program generalizing p with
  | done a => exact ⟨a, p, fun _ _ _ => .refl, carries.refl p, keeps⟩
  | ask r next ih =>
      cases r with
      | act action =>
          have permits := keeps.allowed.2
          have fresh := keeps.allowed.1.perform (w := {}) catalogue permits
          obtain ⟨a, p', returns, read, post⟩ := ih _ (keeps.goesOn _ _ ⟨fresh, {}, rfl, rfl⟩)
          refine ⟨a, p', fun s k callers => .head (fun w => ?_) (returns s k callers),
            carries.trans (carries.act {} permits) read, post⟩
          simp only [Machine.step, Program.ask_andThen]
          rw [perform_of_permits permits w {}]
      | evaluate k depth =>
          obtain ⟨fresh, pure, mayCompute⟩ := keeps.allowed
          obtain ⟨p₁, computed, read₁, read, written⟩ := computes k depth p mayCompute pure fresh
          obtain ⟨a, p', returns, read', post⟩ := ih () (keeps.goesOn () p₁ ⟨read, written⟩)
          refine ⟨a, p', fun s after callers => ?_, carries.trans read₁ read', post⟩
          have inside := computed ⟨k, depth⟩ .done (.node s (fun x => (next x).andThen after) :: callers)
          rw [Program.andThen_done] at inside
          exact .head (fun w => rfl) (inside.trans (.head (fun w => rfl) (returns s after callers)))
      | activate k depth => exact keeps.allowed.2.1.elim
      | sleep milliseconds | rest => exact keeps.allowed.2.elim
      | restart => exact keeps.allowed.2.1.elim
      | abort cause => exact keeps.allowed.2.1.elim
      | pulse root => exact keeps.allowed.2.elim

/-- The computation of every pure node comes to an end. -/
theorem evaluation_returns (n : NodeId) :
    ∀ depth p, g.isPure n = true → g.Fresh p →
      ∃ p', Engine.Returns g p (Engine.evaluation g ⟨n, depth⟩) () p' ∧ R p p' ∧
        g.ReadFrom p p' ∧ ∀ output ∈ g.outputs n, p'.memo.contains output = true := by
  induction n using catalogue.wellFounded.induction with
  | _ n ih =>
      intro depth p pure fresh
      have keeps : (Engine.evaluation g ⟨n, depth⟩).wp
          ((g.reading False (Blueprint.Feeds g.valueEdges · n)).Spec ⟨n, depth⟩ fun _ => True)
          (fun _ p' => g.ReadFrom p p' ∧ ∀ output ∈ g.outputs n, p'.memo.contains output = true) p :=
        wp_evaluation (s := ⟨n, depth⟩) catalogue fresh pure (fun _ feeds => feeds)
          fun _ read written => ⟨read, written⟩
      obtain ⟨_, p', returns, read, post⟩ := returns_of_wp catalogue carries
        (fun k depth p feeds => ih k feeds depth p) keeps
      exact ⟨p', returns, read, post⟩

/-- A program that only reads comes to an end. -/
theorem reading_returns {α : Type} {program : Engine α} {s : Scope} {back : Pulse → Prop}
    {Q : α → Pulse → Prop} (keeps : program.wp ((g.reading False fun _ => True).Spec s back) Q p) :
    ∃ a p', Engine.Returns g p program a p' ∧ R p p' ∧ Q a p' :=
  returns_of_wp catalogue carries (fun k depth p _ => evaluation_returns catalogue carries k depth p) keeps

/-- Reading a single input gives what the input is worth. -/
theorem input_returns (fresh : g.Fresh p) {s : Scope} {index : Nat} {i : Input}
    (takes : g.Takes ⟨s.node, index⟩ i) (single : i.isList = false) :
    ∃ c p', Engine.Returns g p (Engine.answer g s (.input index i.type)) c p' ∧ R p p' ∧ g.ReadFrom p p' ∧
      g.InputIs p.published.get? ⟨s.node, index⟩ i (some (.of i.type c)) := by
  have keeps : (Engine.answer g s (.input index i.type)).wp
      ((g.reading False fun _ => True).Spec s fun _ => True)
      (fun c p' => g.ReadFrom p p' ∧ g.InputIs p.published.get? ⟨s.node, index⟩ i (some (.of i.type c))) p :=
    wp_input catalogue fresh takes (fun _ _ => trivial) single fun _ _ read worth => ⟨read, worth⟩
  exact reading_returns catalogue carries keeps

end

/-- Resolving an output of a fresh pulse returns what the output is worth. -/
theorem resolve_returns (catalogue : g.FromCatalogue) (fresh : g.Fresh p)
    (declares : g.Declares output o) (depth : Nat) :
    ∃ v p', Engine.Returns g p (Engine.resolve g depth output) v p' ∧ g.ReadFrom p p' ∧
      g.Evaluates p.published.get? output v := by
  have keeps : (Engine.resolve g depth output).wp
      ((g.reading False fun _ => True).Spec ⟨output.node, depth⟩ fun _ => True)
      (fun v p' => g.ReadFrom p p' ∧ g.Evaluates p.published.get? output v) p :=
    wp_resolve fresh declares (fun _ => trivial) fun _ _ read value => ⟨read, value⟩
  obtain ⟨v, p', returns, _, post⟩ := reading_returns catalogue carries_hasRead keeps
  exact ⟨v, p', returns, post⟩

/-- What a fresh pulse has published is what its events say. -/
theorem follows_published (catalogue : g.FromCatalogue) :
    g.conduct.Follows fun events _ p x =>
      (x = p ∧ g.Fresh p) ∧ p.published.get? = lastPublished events :=
  (follows_conduct catalogue).also
    (fun {_ a _ w p _} _ _ published => by
      funext output
      rw [a.published_perform, lastPublished_append, published, lastPublished_singleton])
    (fun published => by
      funext output
      rw [published, lastPublished_append]
      rfl)

/-- At every point of every run of a pulse, every declared output has exactly one value by what the
events so far have published, and resolving the output there returns this value, without publishing
anything and whatever the others do meanwhile. -/
theorem resolve_current (catalogue : g.FromCatalogue) {root : NodeId} {r : Member}
    (triggerable : g.root root = .ok r) {w₀ w : World} {token : TokenId} {events : List Event}
    {m : Machine}
    (run : Machine.Run g (fun _ _ => True) (Machine.start g w₀ root token).1
      (Machine.start g w₀ root token).2 events w m)
    (declares : g.Declares output o) (depth : Nat) :
    ∃ v, (∀ v', g.Evaluates (lastPublished events) output v' ↔ v' = v) ∧
      ∃ p', p'.published = m.pulse.published ∧
        Engine.Returns g m.pulse (Engine.resolve g depth output) v p' := by
  have verified := verified_conduct catalogue
  have follows := follows_published catalogue
  have fits := fits_conduct catalogue triggerable w₀ token
  have start := fresh_start (g := g) w₀ root token
  obtain ⟨_, _, ⟨_, fresh⟩, published⟩ :=
    fits.run verified follows (fun _ seen => seen) ⟨⟨rfl, start⟩, rfl⟩ run
  obtain ⟨v, p', returns, read, value⟩ := resolve_returns catalogue fresh declares depth
  rw [published] at value
  refine ⟨v, fun v' => ⟨fun value' => value'.unique value, ?_⟩, p', read.published, returns⟩
  rintro rfl
  exact value

/-- A loop of two rounds whose body logs one more than the number of the round. -/
def rounds : Graph where
  name := "rounds"
  config := {}
  members := [⟨"loop", CatalogueNode.forLoop.node⟩, ⟨"count", (CatalogueNode.constant (.int 2)).node⟩,
    ⟨"one", (CatalogueNode.constant (.int 1)).node⟩, ⟨"next", (CatalogueNode.add .int).node⟩,
    ⟨"log", (CatalogueNode.log .int .own).node⟩]
  valueEdges := [⟨⟨⟨1⟩, 0⟩, ⟨⟨0⟩, 0⟩⟩, ⟨⟨⟨0⟩, 0⟩, ⟨⟨3⟩, 0⟩⟩, ⟨⟨⟨2⟩, 0⟩, ⟨⟨3⟩, 1⟩⟩,
    ⟨⟨⟨3⟩, 0⟩, ⟨⟨4⟩, 0⟩⟩]
  flowEdges := [⟨⟨⟨0⟩, 0⟩, ⟨4⟩⟩]

/-- The calls that make the loop of two rounds. -/
def roundsCalls : List Blueprint.Call :=
  [.add "loop" CatalogueNode.forLoop.node, .add "count" (CatalogueNode.constant (.int 2)).node,
    .add "one" (CatalogueNode.constant (.int 1)).node, .add "next" (CatalogueNode.add .int).node,
    .add "log" (CatalogueNode.log .int .own).node,
    .connectValue ⟨"count", "Value", "loop", "Count"⟩,
    .connectValue ⟨"loop", "Index", "next", "A"⟩, .connectValue ⟨"one", "Value", "next", "B"⟩,
    .connectValue ⟨"next", "Result", "log", "Value"⟩, .connectFlow ⟨"loop", "Loop", "log"⟩]

theorem rounds_fromCatalogue : rounds.FromCatalogue where
  built := ⟨"rounds", {}, roundsCalls, by cbv⟩
  nodes m member := by
    simp only [rounds, List.mem_cons, List.not_mem_nil, or_false] at member
    rcases member with rfl | rfl | rfl | rfl | rfl <;> exact ⟨_, rfl⟩

/-- In the second round, when the loop has published its number again, the sum of the first round is not
taken for current any more. -/
theorem resolve_current_second_round :
    ∃ r events w m, rounds.root ⟨0⟩ = .ok r ∧
      Machine.Run rounds (fun _ _ => True) (Machine.start rounds {} ⟨0⟩ ⟨0⟩).1
        (Machine.start rounds {} ⟨0⟩ ⟨0⟩).2 events w m ∧
      lastPublished events ⟨⟨0⟩, 0⟩ = some (.int 1) ∧
      rounds.Declares ⟨⟨3⟩, 0⟩ ⟨"Result", .int⟩ ∧
      ∃ v, (∀ v', rounds.Evaluates (lastPublished events) ⟨⟨3⟩, 0⟩ v' ↔ v' = v) ∧
        ∃ p', p'.published = m.pulse.published ∧
          Engine.Returns rounds m.pulse (Engine.resolve rounds 1 ⟨⟨3⟩, 0⟩) v p' := by
  have triggerable : rounds.root ⟨0⟩ = .ok ⟨"loop", CatalogueNode.forLoop.node⟩ := rfl
  have run : Machine.Run rounds (fun _ _ => True) _ _ _ _ _ :=
    Machine.run_alone rounds (fun _ _ => trivial) (Machine.start rounds {} ⟨0⟩ ⟨0⟩).1
      (Machine.start rounds {} ⟨0⟩ ⟨0⟩).2 38
  have declares : rounds.Declares ⟨⟨3⟩, 0⟩ ⟨"Result", .int⟩ := ⟨_, rfl, rfl⟩
  exact ⟨_, _, _, _, triggerable, run, by cbv, declares,
    resolve_current rounds_fromCatalogue triggerable run declares 1⟩

end Graph

end FlowGraph
