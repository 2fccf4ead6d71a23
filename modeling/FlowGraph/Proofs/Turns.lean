import FlowGraph.Proofs.Traffic

/-!
# Taking turns

Pulses that share a graph do not move at just any time. Whoever has the turn keeps it until it has to
wait, rests, or ends; only then do hosts and other pulses get to do something. Who is next, and what hosts
do in between, is left open. So what a pulse does within one turn is not disturbed, and everything may have
changed when it has waited.
-/

namespace FlowGraph

/-- A graph in use, with the pulse that has the turn and those that wait for theirs. -/
structure Stage where
  world : World := {}
  turn : Option Machine := none
  waiting : List Machine := []

namespace Graph

/-- One step of a graph whose pulses take turns. -/
inductive Turns (g : Graph) : Stage → Stage → Prop where
  | host {w w' waiting} (changes : g.HostChanges w w') : Turns g ⟨w, none, waiting⟩ ⟨w', none, waiting⟩
  | start {w waiting r} (root : NodeId) (token : TokenId) (triggerable : g.root root = .ok r) :
      Turns g ⟨w, none, waiting⟩
        ⟨(Machine.start g w root token).1, some (Machine.start g w root token).2, waiting⟩
  | resume (w before m after) : Turns g ⟨w, none, before ++ m :: after⟩ ⟨w, some m, before ++ after⟩
  | move {w w' m m' waiting} (moves : m.step g w = .running w' m') :
      Turns g ⟨w, some m, waiting⟩ ⟨w', some m', waiting⟩
  | sleep {w w' m m' milliseconds waiting} (sleeps : m.step g w = .sleeping w' milliseconds m') :
      Turns g ⟨w, some m, waiting⟩ ⟨w', none, waiting ++ [m']⟩
  | rest {w w' m m' waiting} (rests : m.step g w = .resting w' m') :
      Turns g ⟨w, some m, waiting⟩ ⟨w', none, waiting ++ [m']⟩
  | finish {w w' m waiting result} (ends : m.step g w = .ended w' result) :
      Turns g ⟨w, some m, waiting⟩ ⟨w', none, waiting⟩

end Graph

namespace Stage

variable {g : Graph}

/-- The pulse that has the turn has one property, those that wait have another one. -/
structure Holds (T : World → Machine → Prop) (W : Machine → Prop) (stage : Stage) : Prop where
  turn : ∀ m, stage.turn = some m → T stage.world m
  waiting : ∀ m ∈ stage.waiting, W m

/-- What holds after a step is what a pulse has when it starts or resumes, and what it gets to within
its turn. -/
theorem Holds.turns {T T' : World → Machine → Prop} {W : Machine → Prop} {stage stage' : Stage}
    (h : stage.Holds T W) (turns : g.Turns stage stage')
    (starts : ∀ {w root r} (token : TokenId), g.root root = .ok r →
      T' (Machine.start g w root token).1 (Machine.start g w root token).2)
    (resumes : ∀ {w m}, W m → T' w m)
    (moves : ∀ {w m w' m'}, T w m → m.step g w = .running w' m' → T' w' m')
    (sleeps : ∀ {w m w' milliseconds m'}, T w m → m.step g w = .sleeping w' milliseconds m' → W m')
    (rests : ∀ {w m w' m'}, T w m → m.step g w = .resting w' m' → W m') :
    stage'.Holds T' W := by
  cases turns with
  | host changes => exact ⟨nofun, h.waiting⟩
  | start root token triggerable =>
      refine ⟨?_, h.waiting⟩
      rintro _ ⟨⟩
      exact starts token triggerable
  | resume w before m after =>
      obtain ⟨earlier, rest⟩ := List.forall_mem_append.mp h.waiting
      obtain ⟨this, later⟩ := List.forall_mem_cons.mp rest
      refine ⟨?_, List.forall_mem_append.mpr ⟨earlier, later⟩⟩
      rintro _ ⟨⟩
      exact resumes this
  | move progress =>
      refine ⟨?_, h.waiting⟩
      rintro _ ⟨⟩
      exact moves (h.turn _ rfl) progress
  | sleep progress =>
      have this := sleeps (h.turn _ rfl) progress
      exact ⟨nofun, List.forall_mem_append.mpr ⟨h.waiting, List.forall_mem_singleton.mpr this⟩⟩
  | rest progress =>
      have this := rests (h.turn _ rfl) progress
      exact ⟨nofun, List.forall_mem_append.mpr ⟨h.waiting, List.forall_mem_singleton.mpr this⟩⟩
  | finish progress => exact ⟨nofun, h.waiting⟩

/-- What is reached when the pulse that has the turn makes some moves, fewer if its turn ends before. -/
def advance (g : Graph) : (moves : Nat) → Stage → Stage
  | 0, stage => stage
  | moves + 1, stage =>
    match stage.turn with
    | none => stage
    | some m =>
      match m.step g stage.world with
      | .running w m => advance g moves { stage with world := w, turn := some m }
      | .sleeping w _ m | .resting w m => ⟨w, none, stage.waiting ++ [m]⟩
      | .ended w _ => ⟨w, none, stage.waiting⟩

theorem turns_advance (moves : Nat) (stage : Stage) :
    Relation.ReflTransGen g.Turns stage (stage.advance g moves) := by
  induction moves generalizing stage with
  | zero => exact .refl
  | succ moves ih =>
      obtain ⟨w, turn, waiting⟩ := stage
      cases turn with
      | none => exact .refl
      | some m =>
          rw [advance]
          dsimp only
          split
          next progress => exact .head (.move progress) (ih _)
          next progress => exact .single (.sleep progress)
          next progress => exact .single (.rest progress)
          next progress => exact .single (.finish progress)

end Stage

namespace Graph

variable {g : Graph} {w₀ : World} {stage : Stage}

/-- Pulses of catalogue nodes that take turns are all under way. -/
theorem underWay_of_reachable (catalogue : g.FromCatalogue)
    (reachable : Relation.ReflTransGen g.Turns { world := w₀ } stage) :
    stage.Holds (fun _ => g.UnderWay) g.UnderWay := by
  induction reachable with
  | refl => exact ⟨nofun, List.forall_mem_nil _⟩
  | tail _ turns ih =>
      refine ih.turns turns ?starts ?resumes ?moves ?sleeps ?rests
      case starts => exact fun token triggerable => underWay_start catalogue triggerable _ token
      case resumes => exact fun underWay => underWay
      case moves => exact fun underWay moves => underWay.next catalogue (by rw [moves]; rfl)
      case sleeps => exact fun underWay sleeps => underWay.next catalogue (by rw [sleeps]; rfl)
      case rests => exact fun underWay rests => underWay.next catalogue (by rw [rests]; rfl)

end Graph

end FlowGraph
