import Mathlib.Data.List.Perm.Basic
import FlowGraph.Proofs.Recomputing
import FlowGraph.Proofs.Renumbering

/-!
# Calls in another order

Calls on a blueprint may come in another order as long as the connections into each list input, and those
out of each flow output, are asked for in the same order. Such calls are valid if the original ones are.
Where a node comes in the one order and where in the other gives a renaming, and it carries the graph of the
one over to the graph of the other. Only the order of the dependents of an output follows the ids, and this
is why they are put in order again.
-/

namespace FlowGraph

/-! ## Places in a reordered list -/

section

variable {α β : Type}

/-- A permutation of places, behind a first one that stays. -/
def placesBehind (σ : Equiv.Perm Nat) : Equiv.Perm Nat where
  toFun
    | 0 => 0
    | i + 1 => σ i + 1
  invFun
    | 0 => 0
    | i + 1 => σ.symm i + 1
  left_inv i := by cases i <;> simp
  right_inv i := by cases i <;> simp

/-- Every entry of a list has a place in the reordered one. -/
theorem exists_places_of_perm {l l' : List α} (h : l.Perm l') :
    ∃ σ : Equiv.Perm Nat, ∀ i, l'[σ i]? = l[i]? := by
  induction h with
  | nil => exact ⟨Equiv.refl Nat, fun i => rfl⟩
  | cons a _ ih =>
      obtain ⟨σ, same⟩ := ih
      refine ⟨placesBehind σ, fun i => ?_⟩
      cases i with
      | zero => rfl
      | succ i => simpa [placesBehind] using same i
  | swap a b l =>
      refine ⟨Equiv.swap 0 1, fun i => ?_⟩
      match i with
      | 0 | 1 => simp
      | i + 2 => rw [Equiv.swap_apply_of_ne_of_ne (by omega) (by omega)]; simp
  | trans _ _ ih ih' =>
      obtain ⟨σ, same⟩ := ih
      obtain ⟨τ, same'⟩ := ih'
      exact ⟨σ.trans τ, fun i => (same' (σ i)).trans (same i)⟩

/-- What belongs to the chosen entries of two lists is the same, up to a renaming, if the same entries have
been chosen in the same order. -/
theorem filter_eq_map {J J' : α → β → Prop} {f : β → β} (unique : Relator.RightUnique J')
    (renamed : ∀ a b, J a b → J' a (f b)) {l l' : List α} {k k' : List β} (joined : List.Forall₂ J l k)
    (joined' : List.Forall₂ J' l' k') {p : α → Bool} {q q' : β → Bool}
    (here : ∀ a b, J a b → (p a ↔ q b)) (there : ∀ a b, J' a b → (p a ↔ q' b))
    (order : l.filter p = l'.filter p) :
    k'.filter q' = (k.filter q).map f := by
  have chosen : List.Forall₂ J (l'.filter p) (k.filter q) := order ▸ List.rel_filter here joined
  have chosen' : List.Forall₂ J' (l'.filter p) (k'.filter q') := List.rel_filter there joined'
  exact List.right_unique_forall₂' unique chosen' (List.forall₂_map_right_iff.mpr (chosen.imp renamed))

/-- The entries that pass a test, if renaming them decides nothing. -/
theorem perm_filter_map {f : α → α} {l l' : List α} {p q : α → Bool} (same : ∀ a, q (f a) = p a)
    (perm : l'.Perm (l.map f)) : (l'.filter q).Perm ((l.filter p).map f) := by
  have kept := perm.filter q
  rwa [List.filter_map, show q ∘ f = p from funext same] at kept

end

/-- The renaming that leads each place to another. -/
def Renaming.ofPlaces (σ : Equiv.Perm Nat) : Renaming where
  toFun n := ⟨σ n.index⟩
  invFun n := ⟨σ.symm n.index⟩
  left_inv n := by simp
  right_inv n := by simp

namespace Blueprint

/-- Two sequences of calls add the same nodes under the same names and ask for the same connections. The
order may differ, but not that of the connections into a list input or out of a flow output. -/
structure Reordered (calls calls' : List Call) : Prop where
  nodes : (calls.filterMap Call.addition?).Perm (calls'.filterMap Call.addition?)
  values : (valueWishesOf calls).Perm (valueWishesOf calls')
  flows : (flowWishesOf calls).Perm (flowWishesOf calls')
  lists : ∀ m ∈ membersOf calls, ∀ i ∈ m.descriptor.inputs, i.isList = true →
    (valueWishesOf calls).filter (fun w => w.target = m.name ∧ w.targetPort = i.name) =
      (valueWishesOf calls').filter fun w => w.target = m.name ∧ w.targetPort = i.name
  outputs : ∀ m ∈ membersOf calls, ∀ f ∈ m.descriptor.flows,
    (flowWishesOf calls).filter (fun w => w.source = m.name ∧ w.flow = f.name) =
      (flowWishesOf calls').filter fun w => w.source = m.name ∧ w.flow = f.name

theorem membersOf_eq (calls : List Call) :
    membersOf calls = (calls.filterMap Call.addition?).filterMap fun
      | (name, .ok node) => some ⟨name, node⟩
      | _ => none := by
  rw [membersOf, List.filterMap_filterMap]
  congr 1
  funext c
  rw [Call.member?]
  rcases c.addition? with _ | ⟨name, _ | node⟩ <;> rfl

namespace Reordered

variable {calls calls' : List Call} (h : Reordered calls calls')

include h

theorem members : (membersOf calls).Perm (membersOf calls') := by
  rw [membersOf_eq, membersOf_eq]
  exact h.nodes.filterMap _

theorem names : (namesOf calls).Perm (namesOf calls') :=
  h.nodes.map _

theorem symm : Reordered calls' calls where
  nodes := h.nodes.symm
  values := h.values.symm
  flows := h.flows.symm
  lists m member i input list := (h.lists m (h.members.mem_iff.mpr member) i input list).symm
  outputs m member f flow := (h.outputs m (h.members.mem_iff.mpr member) f flow).symm

theorem additions (fine : Additions calls) : Additions calls' where
  nodup := h.names.nodup_iff.mp fine.nodup
  accepted name e refused := fine.accepted name e (h.nodes.mem_iff.mpr refused)

end Reordered

end Blueprint

/-! ## Members and connections -/

/-- A renaming leads from each member to the same one in another list. Names are not used twice. -/
structure Renaming.Moves (π : Renaming) (ms ms' : List Member) : Prop where
  place : ∀ n : NodeId, ms'[(π n).index]? = ms[n.index]?
  nodup : (ms'.map (·.name)).Nodup

/-- The connection between what the ports have become. -/
def ValueEdge.rename (π : Renaming) (e : ValueEdge) : ValueEdge :=
  ⟨π.port e.source, π.port e.target⟩

@[simp] theorem ValueEdge.target_rename (π : Renaming) (e : ValueEdge) :
    (e.rename π).target = π.port e.target := rfl

/-- The connection between what the flow output and the node have become. -/
def FlowEdge.rename (π : Renaming) (e : FlowEdge) : FlowEdge :=
  ⟨π.port e.source, π e.target⟩

@[simp] theorem FlowEdge.source_rename (π : Renaming) (e : FlowEdge) :
    (e.rename π).source = π.port e.source := rfl

theorem Port.eq_of_parts {p q : Port} (node : p.node.index = q.node.index) (index : p.index = q.index) :
    p = q := by
  obtain ⟨⟨n⟩, i⟩ := p
  obtain ⟨⟨m⟩, j⟩ := q
  obtain ⟨rfl, rfl⟩ : n = m ∧ i = j := ⟨node, index⟩
  rfl

namespace Blueprint

variable {π : Renaming} {ms ms' : List Member} {w w' : ValueWish} {e e' : ValueEdge} {fw fw' : FlowWish}
  {fe fe' : FlowEdge} {p : Port}

/-- Two wishes name the same input exactly if their connections lead to the same one. -/
theorem Joins.target_iff (joins : Joins ms w e) (joins' : Joins ms w' e') :
    w'.target = w.target ∧ w'.targetPort = w.targetPort ↔ e'.target = e.target := by
  obtain ⟨_, m, _, i, _, ht, _, hi, _⟩ := joins
  obtain ⟨_, m', _, i', _, ht', _, hi', _⟩ := joins'
  constructor
  · rintro ⟨node, port⟩
    obtain ⟨sameNode, rfl⟩ := (node ▸ ht').unique ht
    obtain ⟨sameIndex, _⟩ := (port ▸ hi').unique hi
    exact Port.eq_of_parts sameNode sameIndex
  · intro same
    rw [same] at ht' hi'
    obtain rfl : m' = m := Option.some.inj (ht'.entry.symm.trans ht.entry)
    obtain rfl : i' = i := Option.some.inj (hi'.entry.symm.trans hi.entry)
    exact ⟨ht'.named.symm.trans ht.named, hi'.named.symm.trans hi.named⟩

/-- Two wishes name the same flow output exactly if their connections start from the same one. -/
theorem Starts.source_iff (starts : Starts ms fw fe) (starts' : Starts ms fw' fe') :
    fw'.source = fw.source ∧ fw'.flow = fw.flow ↔ fe'.source = fe.source := by
  obtain ⟨m, _, f, hs, _, hf, _⟩ := starts
  obtain ⟨m', _, f', hs', _, hf', _⟩ := starts'
  constructor
  · rintro ⟨node, flow⟩
    obtain ⟨sameNode, rfl⟩ := (node ▸ hs').unique hs
    obtain ⟨sameIndex, _⟩ := (flow ▸ hf').unique hf
    exact Port.eq_of_parts sameNode sameIndex
  · intro same
    rw [same] at hs' hf'
    obtain rfl : m' = m := Option.some.inj (hs'.entry.symm.trans hs.entry)
    obtain rfl : f' = f := Option.some.inj (hf'.entry.symm.trans hf.entry)
    exact ⟨hs'.named.symm.trans hs.named, hf'.named.symm.trans hf.named⟩

theorem joins_unique : Relator.RightUnique (Joins ms) := by
  rintro w ⟨⟨⟨a⟩, i⟩, ⟨⟨b⟩, j⟩⟩ ⟨⟨⟨a'⟩, i'⟩, ⟨⟨b'⟩, j'⟩⟩ ⟨_, _, _, _, hs, ht, ho, hi, _⟩
    ⟨_, _, _, _, hs', ht', ho', hi', _⟩
  obtain ⟨rfl, rfl⟩ := hs.unique hs'
  obtain ⟨rfl, rfl⟩ := ht.unique ht'
  obtain ⟨rfl, _⟩ := ho.unique ho'
  obtain ⟨rfl, _⟩ := hi.unique hi'
  rfl

theorem starts_unique : Relator.RightUnique (Starts ms) := by
  rintro w ⟨⟨⟨a⟩, i⟩, ⟨b⟩⟩ ⟨⟨⟨a'⟩, i'⟩, ⟨b'⟩⟩ ⟨_, _, _, hs, ht, hf, _⟩ ⟨_, _, _, hs', ht', hf', _⟩
  obtain ⟨rfl, rfl⟩ := hs.unique hs'
  obtain ⟨rfl, rfl⟩ := ht.unique ht'
  obtain ⟨rfl, _⟩ := hf.unique hf'
  rfl

section

variable (moves : π.Moves ms ms')

include moves

theorem firstNamed_rename {name : String} {n : NodeId} {m : Member}
    (named : FirstNamed Member.name ms name n.index m) : FirstNamed Member.name ms' name (π n).index m :=
  .of_nodup moves.nodup ((moves.place n).trans named.entry) named.named

theorem Joins.rename (joins : Joins ms w e) : Joins ms' w (e.rename π) := by
  obtain ⟨source, target, output, input, hs, ht, ho, hi, same⟩ := joins
  exact ⟨source, target, output, input, firstNamed_rename moves hs, firstNamed_rename moves ht, ho, hi, same⟩

theorem Starts.rename (starts : Starts ms fw fe) : Starts ms' fw (fe.rename π) := by
  obtain ⟨source, target, flow, hs, ht, hf, opened⟩ := starts
  exact ⟨source, target, flow, firstNamed_rename moves hs, firstNamed_rename moves ht, hf, opened⟩

theorem joined_rename {wishes : List ValueWish} {edges : List ValueEdge}
    (joined : List.Forall₂ (Joins ms) wishes edges) :
    List.Forall₂ (Joins ms') wishes (edges.map (·.rename π)) :=
  List.forall₂_map_right_iff.mpr (joined.imp fun _ _ joins => joins.rename moves)

theorem started_rename {wishes : List FlowWish} {edges : List FlowEdge}
    (started : List.Forall₂ (Starts ms) wishes edges) :
    List.Forall₂ (Starts ms') wishes (edges.map (·.rename π)) :=
  List.forall₂_map_right_iff.mpr (started.imp fun _ _ starts => starts.rename moves)

theorem declares_rename {i : Input} : Declares ms' (π.port p) i ↔ Declares ms p i := by
  rw [Declares, Declares, Renaming.node_port, moves.place]
  rfl

theorem isSingle_rename : IsSingle ms' (π.port p) ↔ IsSingle ms p :=
  exists_congr fun _ => and_congr_left' (declares_rename moves)

end

/-! ## Valid calls in another order -/

section

variable {edges edges' : List ValueEdge} (perm : edges'.Perm (edges.map (·.rename π)))

include perm

theorem mem_renamed : e' ∈ edges' ↔ ∃ e ∈ edges, e.rename π = e' := by
  rw [perm.mem_iff, List.mem_map]

theorem feeds_rename {a b : NodeId} : Feeds edges' (π a) (π b) ↔ Feeds edges a b := by
  constructor
  · rintro ⟨e', member, source, target⟩
    obtain ⟨e, edge, rfl⟩ := (mem_renamed perm).mp member
    exact ⟨e, edge, π.injective source, π.injective target⟩
  · rintro ⟨e, edge, rfl, rfl⟩
    exact ⟨e.rename π, (mem_renamed perm).mpr ⟨e, edge, rfl⟩, rfl, rfl⟩

theorem feeds_symm_of_feeds {a b : NodeId} (feeds : Feeds edges' a b) :
    Feeds edges (π.symm a) (π.symm b) := by
  rwa [← feeds_rename perm, π.apply_symm_apply, π.apply_symm_apply]

end

section

variable {calls calls' : List Call} {values : List ValueEdge} {flows : List FlowEdge}

/-- Only single inputs keep a second connection away, whichever comes first. -/
theorem Wired.of_perm {wishes : List ValueWish} {edges edges' : List ValueEdge} (wired : Wired ms wishes edges)
    (perm : edges'.Perm edges) {wishes' : List ValueWish} (joined : List.Forall₂ (Joins ms) wishes' edges') :
    Wired ms wishes' edges' where
  joined := joined
  single := by
    refine (perm.pairwise_iff fun {e later} apart single same => ?_).mpr wired.single
    exact apart (same ▸ single) same.symm

theorem Wired.rename (moves : π.Moves ms ms') {wishes : List ValueWish} {edges : List ValueEdge}
    (wired : Wired ms wishes edges) : Wired ms' wishes (edges.map (·.rename π)) where
  joined := joined_rename moves wired.joined
  single := by
    refine List.pairwise_map.mpr (wired.single.imp fun apart single same => ?_)
    exact apart ((isSingle_rename moves).mp single) (π.port.injective same)

/-- Valid calls are valid in another order, and have the same connections between what the nodes have
become. -/
theorem Valid.reordered (valid : Valid calls values flows) (h : Reordered calls calls')
    (moves : π.Moves (membersOf calls) (membersOf calls')) :
    ∃ values' flows', Valid calls' values' flows' ∧ values'.Perm (values.map (·.rename π)) ∧
      flows'.Perm (flows.map (·.rename π)) := by
  obtain ⟨sorted, joined, perm⟩ := List.perm_comp_forall₂ h.values.symm valid.wired.joined
  obtain ⟨flows', started, flowPerm⟩ := List.perm_comp_forall₂ h.flows.symm valid.started
  have renamed : (sorted.map (·.rename π)).Perm (values.map (·.rename π)) := perm.map _
  refine ⟨_, _, ⟨h.additions valid.additions, (valid.wired.of_perm perm joined).rename moves,
    started_rename moves started, ?complete, ?acyclic⟩, renamed, flowPerm.map _⟩
  case complete =>
    rintro input i ⟨declared, required, free⟩
    obtain ⟨p, rfl⟩ := π.port.surjective input
    refine valid.complete p i ⟨(declares_rename moves).mp declared, required, fun e edge same => ?_⟩
    exact free (e.rename π) ((mem_renamed renamed).mpr ⟨e, edge, rfl⟩) (congrArg π.port same)
  case acyclic =>
    intro n cycle
    exact valid.acyclic (π.symm n) (cycle.lift π.symm fun _ _ feeds => feeds_symm_of_feeds renamed feeds)

/-! ## The connections of a port -/

variable {values' : List ValueEdge} {flows' : List FlowEdge}

/-- A single input has at most one connection. -/
theorem Wired.eq_nil_of_single {wishes : List ValueWish} {edges rest : List ValueEdge}
    (wired : Wired ms wishes edges) (single : IsSingle ms p)
    (found : edges.filter (·.target = p) = e :: rest) : rest = [] := by
  have leads : ∀ later ∈ e :: rest, later.target = p := by
    intro later member
    rw [← found] at member
    exact of_decide_eq_true (List.mem_filter.mp member).2
  have apart := wired.single.filter (·.target = p)
  rw [found, List.pairwise_cons] at apart
  refine List.eq_nil_iff_forall_not_mem.mpr fun later member => ?_
  have same := leads later (List.mem_cons_of_mem _ member)
  exact apart.1 later member (same ▸ single) ((leads e List.mem_cons_self).trans same.symm)

variable (h : Reordered calls calls') (moves : π.Moves (membersOf calls) (membersOf calls'))
  (valid : Valid calls values flows) (valid' : Valid calls' values' flows')

include h moves valid valid'

/-- The connections into an input keep their order. A single input has one at most, and those into a list
input have been asked for in the same order. -/
theorem filter_target_rename (perm : values'.Perm (values.map (·.rename π))) (p : Port) :
    values'.filter (·.target = π.port p) = (values.filter (·.target = p)).map (·.rename π) := by
  have permFilter : (values'.filter (·.target = π.port p)).Perm
      ((values.filter (·.target = p)).map (·.rename π)) :=
    perm_filter_map (fun e => decide_eq_decide.mpr π.port.injective.eq_iff) perm
  cases found : values.filter (·.target = p) with
  | nil =>
      rw [found] at permFilter
      exact permFilter.eq_nil
  | cons e rest =>
      have member : e ∈ values.filter (·.target = p) := found ▸ List.mem_cons_self
      obtain ⟨edge, target⟩ := List.mem_filter.mp member
      obtain rfl : e.target = p := of_decide_eq_true target
      obtain ⟨w, _, joins⟩ := valid.wired.exists_joins edge
      have ⟨_, m, _, i, _, ht, _, hi, _⟩ := joins
      cases list : i.isList with
      | false =>
          obtain rfl := valid.wired.eq_nil_of_single ⟨i, declares_of_named ht hi, list⟩ found
          rw [found] at permFilter
          exact List.perm_singleton.mp permFilter
      | true =>
          have order := h.lists m ht.mem i hi.mem list
          rw [ht.named, hi.named] at order
          rw [← found]
          refine filter_eq_map joins_unique (fun _ _ joins => joins.rename moves) valid.wired.joined
            valid'.wired.joined (fun _ _ joins' => ?_) (fun _ _ joins' => ?_) order
          · simpa using joins.target_iff joins'
          · simpa using (joins.rename moves).target_iff joins'

/-- The connections out of a flow output keep their order. -/
theorem filter_source_rename (flowPerm : flows'.Perm (flows.map (·.rename π))) (p : Port) :
    flows'.filter (·.source = π.port p) = (flows.filter (·.source = p)).map (·.rename π) := by
  have permFilter : (flows'.filter (·.source = π.port p)).Perm
      ((flows.filter (·.source = p)).map (·.rename π)) :=
    perm_filter_map (fun e => decide_eq_decide.mpr π.port.injective.eq_iff) flowPerm
  cases found : flows.filter (·.source = p) with
  | nil =>
      rw [found] at permFilter
      exact permFilter.eq_nil
  | cons e rest =>
      have member : e ∈ flows.filter (·.source = p) := found ▸ List.mem_cons_self
      obtain ⟨edge, source⟩ := List.mem_filter.mp member
      obtain rfl : e.source = p := of_decide_eq_true source
      obtain ⟨w, _, starts⟩ := exists_starts valid.started edge
      have ⟨m, _, f, hs, _, hf, _⟩ := starts
      have order := h.outputs m hs.mem f hf.mem
      rw [hs.named, hf.named] at order
      rw [← found]
      refine filter_eq_map starts_unique (fun _ _ starts => starts.rename moves) valid.started
        valid'.started (fun _ _ starts' => ?_) (fun _ _ starts' => ?_) order
      · simpa using starts.source_iff starts'
      · simpa using (starts.rename moves).source_iff starts'

end

end Blueprint

/-! ## Dependents -/

namespace Renaming

variable (π : Renaming)

theorem sorted_inOrder {nodes : List NodeId} (nodup : nodes.Nodup) :
    (π.inOrder nodes).Pairwise fun n m => n.index < m.index := by
  have sorted : (π.inOrder nodes).Pairwise fun n m => decide (n.index ≤ m.index) = true :=
    List.pairwise_mergeSort (fun _ _ _ h k => by simp at *; omega) (fun _ _ => by simp; omega) _
  have different : (π.inOrder nodes).Nodup :=
    (List.mergeSort_perm _ _).nodup_iff.mpr (nodup.map π.injective)
  refine (sorted.and different).imp fun {n m} ⟨le, ne⟩ => ?_
  exact Nat.lt_of_le_of_ne (of_decide_eq_true le) fun same => ne (by cases n; cases m; cases same; rfl)

end Renaming

namespace Graph

variable {g g' : Graph} {output output' : Port} {n : NodeId}

theorem sorted_dependents (g : Graph) (output : Port) :
    (g.dependents output).Pairwise fun n m => n.index < m.index := by
  have ids : g.ids.Pairwise fun n m => n.index < m.index :=
    List.pairwise_map.mpr List.pairwise_lt_range
  rw [dependents]
  split
  · exact .nil
  · exact ids.filter _

/-- What derives from an output does so wherever all that is read goes with it. -/
theorem Derives.lift (f : NodeId → NodeId) (reads : ∀ n, g.Reads n output → g'.Reads (f n) output')
    (feeds : ∀ a b, Blueprint.Feeds g.valueEdges a b → Blueprint.Feeds g'.valueEdges (f a) (f b))
    (pure : ∀ n, g.isPure n = true → g'.isPure (f n) = true) (derives : g.Derives output n) :
    g'.Derives output' (f n) := by
  induction derives with
  | reads here => exact .reads (reads _ here)
  | feeds _ step isPure ih => exact .feeds ih (feeds _ _ step) (pure _ isPure)

theorem mem_consumers :
    n ∈ g.consumers output ↔ ∃ e ∈ g.valueEdges, e.source = output ∧ e.target.node = n := by
  simp [consumers, and_assoc]

section

variable {π : Renaming} (pure : ∀ n, g'.isPure (π n) = g.isPure n)
  (perm : g'.valueEdges.Perm (g.valueEdges.map (·.rename π)))

include pure perm

theorem reads_rename : g'.Reads (π n) (π.port output) ↔ g.Reads n output := by
  rw [Reads, Reads, pure, mem_consumers, mem_consumers]
  refine and_congr_left' ⟨?_, ?_⟩
  · rintro ⟨e', member, source, target⟩
    obtain ⟨e, edge, rfl⟩ := (Blueprint.mem_renamed perm).mp member
    exact ⟨e, edge, π.port.injective source, π.injective target⟩
  · rintro ⟨e, edge, rfl, rfl⟩
    exact ⟨e.rename π, (Blueprint.mem_renamed perm).mpr ⟨e, edge, rfl⟩, rfl, rfl⟩

theorem derives_rename : g'.Derives (π.port output) (π n) ↔ g.Derives output n := by
  constructor
  · intro derives
    have back : g.Derives output (π.symm (π n)) := derives.lift π.symm
      (fun k reads => (reads_rename pure perm).mp (by rwa [π.apply_symm_apply]))
      (fun _ _ => Blueprint.feeds_symm_of_feeds perm)
      (fun k isPure => by rwa [← pure, π.apply_symm_apply])
    rwa [π.symm_apply_apply] at back
  · exact fun derives => derives.lift π (fun _ => (reads_rename pure perm).mpr)
      (fun _ _ => (Blueprint.feeds_rename perm).mpr) fun k isPure => (pure k).trans isPure

/-- The dependents of an output are what those of the original output have become. -/
theorem dependents_rename (built : g.Built) (built' : g'.Built) (output : Port) :
    g'.dependents (π.port output) = π.inOrder (g.dependents output) := by
  have irrefl : Std.Irrefl fun n m : NodeId => n.index < m.index := ⟨fun n => Nat.lt_irrefl n.index⟩
  have antisymm : Std.Antisymm fun n m : NodeId => n.index < m.index :=
    ⟨fun n m less more => absurd less (Nat.lt_asymm more)⟩
  have nodup : (g.dependents output).Nodup := (sorted_dependents g output).imp fun less same => by
    rw [same] at less
    exact Nat.lt_irrefl _ less
  refine List.Pairwise.eq_of_mem_iff (sorted_dependents g' _) (π.sorted_inOrder nodup) fun k => ?_
  obtain ⟨n, rfl⟩ := π.surjective k
  rw [Renaming.mem_inOrder]
  have kind : g'.isPure (π.port output).node = g.isPure output.node := pure output.node
  cases isPure : g.isPure output.node with
  | true =>
      have none : g.dependents output = [] := if_pos isPure
      have none' : g'.dependents (π.port output) = [] := if_pos (kind.trans isPure)
      rw [none, none']
      simp
  | false =>
      rw [built'.mem_dependents_iff (kind.trans isPure), built.mem_dependents_iff isPure,
        derives_rename pure perm]

end

end Graph

/-! ## The graphs of reordered calls -/

namespace Blueprint

variable {π : Renaming} {name : String} {config : Config} {calls calls' : List Call}
  {values values' : List ValueEdge} {flows flows' : List FlowEdge}

/-- Where the nodes of the one order are in the other leads from the one graph to the other. -/
theorem carries_of_reordered (h : Reordered calls calls')
    (moves : π.Moves (membersOf calls) (membersOf calls')) (valid : Valid calls values flows)
    (valid' : Valid calls' values' flows') (perm : values'.Perm (values.map (·.rename π)))
    (flowPerm : flows'.Perm (flows.map (·.rename π))) :
    π.Carries (graphOf name config calls values flows) (graphOf name config calls' values' flows') where
  config := rfl
  member n := moves.place n
  id n := by
    have place : ∀ k, (namesOf calls')[(π k).index]? = (namesOf calls)[k.index]? := fun k => by
      rw [← valid.additions.map_name, ← valid'.additions.map_name, List.getElem?_map, List.getElem?_map,
        moves.place]
    refine Option.ext fun k => ?_
    obtain ⟨k, rfl⟩ := π.surjective k
    rw [Option.map_eq_some_iff]
    simp only [EmbeddingLike.apply_eq_iff_eq, exists_eq_right]
    have same : (namesOf calls')[(π k).index]? = some n ↔ (namesOf calls)[k.index]? = some n := by
      rw [place]
    exact (id?_graphOf valid'.additions n (π k).index).trans
      (same.trans (id?_graphOf valid.additions n k.index).symm)
  sources input := by
    rw [Graph.sources, Graph.sources]
    rw [show (graphOf name config calls' values' flows').valueEdges = values' from rfl,
      filter_target_rename h moves valid valid' perm, List.map_map, List.map_map]
    rfl
  targets flow := by
    rw [Graph.targets, Graph.targets]
    rw [show (graphOf name config calls' values' flows').flowEdges = flows' from rfl,
      filter_source_rename h moves valid valid' flowPerm, List.map_map, List.map_map]
    rfl
  dependents := by
    refine Graph.dependents_rename (fun n => ?_) perm ⟨name, config, calls, build_of_valid valid⟩
      ⟨name, config, calls', build_of_valid valid'⟩
    rw [Graph.isPure, Graph.isPure]
    exact congrArg (Option.any _) (moves.place n)

/-- Calls in another order build a graph if the original ones do, with the same nodes under other ids. -/
theorem Reordered.exists_carries (h : Reordered calls calls') {g : Graph}
    (built : (({ name, config } : Blueprint).callAll calls).build = .ok g) :
    ∃ g' π, (({ name, config } : Blueprint).callAll calls').build = .ok g' ∧ Renaming.Carries π g g' := by
  obtain ⟨values, flows, valid, rfl⟩ := valid_of_build built
  obtain ⟨σ, places⟩ := exists_places_of_perm h.members
  have names : (membersOf calls').map (·.name) = namesOf calls' := (h.additions valid.additions).map_name
  have moves : (Renaming.ofPlaces σ).Moves (membersOf calls) (membersOf calls') :=
    ⟨fun n => places n.index, names ▸ (h.additions valid.additions).nodup⟩
  obtain ⟨values', flows', valid', perm, flowPerm⟩ := valid.reordered h moves
  exact ⟨_, _, build_of_valid valid', carries_of_reordered h moves valid valid' perm flowPerm⟩

end Blueprint

end FlowGraph
