import FlowGraph.Proofs.Additions
import FlowGraph.Proofs.Peeling
import FlowGraph.Proofs.Wiring

/-!
# Building accepts exactly the valid graphs

Calls either describe a graph or have a first failure. Building returns the graph in the first case and
the failure in the second, so what it returns tells which is the case. The two passes that remain after
the connections are resolved look for a required input without a connection and for a cycle; both report
the first thing they find in the order of ids.
-/

namespace FlowGraph

/-- A search with places finds nothing only if there is nothing. -/
theorem eq_none_of_findSome?_zipIdx {α β : Type} {f : α × Nat → Option β} {l : List α}
    (h : l.zipIdx.findSome? f = none) {i : Nat} {a : α} (ha : l[i]? = some a) : f (a, i) = none :=
  List.findSome?_eq_none_iff.mp h (a, i) (List.mem_zipIdx_iff_getElem?.mpr ha)

/-- A search with places finds the first thing there is. -/
theorem exists_of_findSome?_zipIdx {α β : Type} {f : α × Nat → Option β} {l : List α} {b : β}
    (h : l.zipIdx.findSome? f = some b) :
    ∃ i a, l[i]? = some a ∧ f (a, i) = some b ∧ ∀ j < i, ∀ c, l[j]? = some c → f (c, j) = none := by
  obtain ⟨front, x, back, split, found, before⟩ := List.findSome?_eq_some_iff.mp h
  have here : l.zipIdx[front.length]? = some x := by rw [split]; simp
  have place : ∀ j : Nat, l.zipIdx[j]? = l[j]?.map fun a => (a, j) := by
    intro j
    simp [List.getElem?_zipIdx]
  rw [place] at here
  obtain ⟨a, ha, rfl⟩ := Option.map_eq_some_iff.mp here
  refine ⟨front.length, a, ha, found, fun j hj c hc => before (c, j) ?_⟩
  have inside : l.zipIdx[j]? = some (c, j) := by rw [place, hc]; rfl
  rw [split, List.getElem?_append_left hj] at inside
  exact List.mem_of_getElem? inside

/-- In two lists that are related place by place, each entry of the second has one in the first. -/
theorem exists_of_forall₂ {α β : Type} {R : α → β → Prop} {l : List α} {k : List β}
    (h : List.Forall₂ R l k) {b : β} (hb : b ∈ k) : ∃ a ∈ l, R a b := by
  induction h with
  | nil => simp at hb
  | @cons a b' _ _ related _ ih =>
      rcases List.mem_cons.mp hb with rfl | rest
      · exact ⟨a, List.mem_cons_self .., related⟩
      · obtain ⟨a', ha', related'⟩ := ih rest
        exact ⟨a', List.mem_cons_of_mem _ ha', related'⟩

namespace Port

theorem le_antisymm {p q : Port} (h : p.le q = true) (k : q.le p = true) : p = q := by
  obtain ⟨⟨n⟩, i⟩ := p
  obtain ⟨⟨m⟩, j⟩ := q
  simp only [le, Bool.or_eq_true, Bool.and_eq_true, decide_eq_true_eq, beq_iff_eq] at h k
  obtain ⟨rfl, rfl⟩ : n = m ∧ i = j := by omega
  rfl

end Port

namespace Blueprint

variable {b : Blueprint} {ms : List Member} {edges : List ValueEdge}

/-! ## Required inputs -/

theorem missingInput?_eq_none (h : b.missingInput? edges = none) (input : Port) (i : Input) :
    ¬ Missing b.members edges input i := by
  rintro ⟨⟨m, hm, hi⟩, required, free⟩
  have inner := eq_none_of_findSome?_zipIdx (eq_none_of_findSome?_zipIdx h hm) hi
  simp only [required, Bool.true_and, ite_eq_right_iff, reduceCtorEq, imp_false, Bool.not_eq_true',
    Bool.not_eq_false, List.any_eq_true, decide_eq_true_eq] at inner
  obtain ⟨e, he, same⟩ := inner
  exact free e he same

theorem missingInput?_eq_some {err : BuildError} (h : b.missingInput? edges = some err) :
    ∃ input i m, Missing b.members edges input i ∧ b.members[input.node.index]? = some m ∧
      err = .requiredInputUnconnected m.name i.name ∧
      ∀ other j, Missing b.members edges other j → input.le other = true := by
  obtain ⟨n, m, hm, found, firstNode⟩ := exists_of_findSome?_zipIdx h
  obtain ⟨k, i, hi, here, firstInput⟩ := exists_of_findSome?_zipIdx found
  have missing : i.isRequired = true ∧ ∀ e ∈ edges, e.target ≠ ⟨⟨n⟩, k⟩ := by
    refine ⟨?_, fun e he same => ?_⟩
    · by_contra optional
      simp [optional] at here
    · have : edges.any (·.target = (⟨⟨n⟩, k⟩ : Port)) = true := by
        simpa using ⟨e, he, same⟩
      simp [this] at here
  refine ⟨⟨⟨n⟩, k⟩, i, m, ⟨⟨m, hm, hi⟩, missing⟩, hm, ?_, ?_⟩
  · simp only [Option.ite_none_right_eq_some, Option.some.injEq] at here
    exact here.2.symm
  · rintro ⟨⟨n'⟩, k'⟩ j ⟨⟨m', hm', hj⟩, required, free⟩
    have hit : (!edges.any (·.target = (⟨⟨n'⟩, k'⟩ : Port))) = true := by
      simpa using free
    simp only [Port.le, Bool.or_eq_true, Bool.and_eq_true, decide_eq_true_eq, beq_iff_eq]
    rcases Nat.lt_trichotomy n n' with less | rfl | more
    · exact .inl less
    · refine .inr ⟨rfl, Nat.le_of_not_lt fun before => ?_⟩
      obtain rfl : m = m' := Option.some.inj (hm.symm.trans hm')
      have := firstInput k' before j hj
      simp [required, hit] at this
    · have := eq_none_of_findSome?_zipIdx (firstNode n' more m' hm') hj
      simp [required, hit] at this

theorem missingInput?_of_complete (complete : ∀ input i, ¬ Missing b.members edges input i) :
    b.missingInput? edges = none := by
  cases found : b.missingInput? edges with
  | none => rfl
  | some err =>
      obtain ⟨input, i, _, missing, _⟩ := missingInput?_eq_some found
      exact absurd missing (complete input i)

theorem missingInput?_of_first {input : Port} {i : Input} {m : Member}
    (missing : Missing b.members edges input i)
    (first : ∀ other j, Missing b.members edges other j → input.le other = true)
    (member : b.members[input.node.index]? = some m) :
    b.missingInput? edges = some (.requiredInputUnconnected m.name i.name) := by
  cases found : b.missingInput? edges with
  | none => exact absurd missing (missingInput?_eq_none found input i)
  | some err =>
      obtain ⟨input', i', m', missing', member', rfl, first'⟩ := missingInput?_eq_some found
      obtain rfl := Port.le_antisymm (first input' i' missing') (first' input i missing)
      obtain rfl := missing.1.unique missing'.1
      obtain rfl : m = m' := Option.some.inj (member.symm.trans member')
      rfl

/-! ## Cycles -/

theorem leads_iff_feeds {i j : Nat} :
    Peel.Leads (edges.map ValueEdge.dependency) i j ↔ Feeds edges ⟨i⟩ ⟨j⟩ := by
  simp only [Peel.Leads, List.mem_map, ValueEdge.dependency, Prod.mk.injEq, Feeds]
  constructor
  · rintro ⟨e, he, rfl, rfl⟩
    exact ⟨e, he, rfl, rfl⟩
  · rintro ⟨e, he, hs, ht⟩
    exact ⟨e, he, congrArg NodeId.index hs, congrArg NodeId.index ht⟩

theorem transGen_leads_iff {i j : Nat} :
    Relation.TransGen (Peel.Leads (edges.map ValueEdge.dependency)) i j ↔
      Relation.TransGen (Feeds edges) ⟨i⟩ ⟨j⟩ :=
  ⟨fun path => path.lift NodeId.mk fun _ _ => leads_iff_feeds.mp,
    fun path => path.lift NodeId.index fun _ _ => leads_iff_feeds.mpr⟩

theorem behindCycle_iff {i : Nat} :
    Peel.BehindCycle (edges.map ValueEdge.dependency) i ↔ Unplaceable edges ⟨i⟩ := by
  constructor
  · rintro ⟨k, cycle, path⟩
    exact ⟨⟨k⟩, transGen_leads_iff.mp cycle, path.lift NodeId.mk fun _ _ => leads_iff_feeds.mp⟩
  · rintro ⟨k, cycle, path⟩
    exact ⟨k.index, transGen_leads_iff.mpr cycle,
      path.lift NodeId.index fun _ _ => leads_iff_feeds.mpr⟩

/-- Every connection that was made joins something. -/
theorem Wired.exists_joins {wishes : List ValueWish} (h : Wired ms wishes edges) {e : ValueEdge}
    (he : e ∈ edges) : ∃ w ∈ wishes, Joins ms w e :=
  exists_of_forall₂ h.joined he

/-- Every wish that was granted has its connection. -/
theorem Wired.exists_edge {wishes : List ValueWish} (h : Wired ms wishes edges) {w : ValueWish}
    (hw : w ∈ wishes) : ∃ e ∈ edges, Joins ms w e :=
  exists_of_forall₂ h.joined.flip hw

/-- Every flow connection that was made starts something. -/
theorem exists_starts {wishes : List FlowWish} {flows : List FlowEdge}
    (started : List.Forall₂ (Starts ms) wishes flows) {e : FlowEdge} (he : e ∈ flows) :
    ∃ w ∈ wishes, Starts ms w e :=
  exists_of_forall₂ started he

theorem Wired.source_lt {wishes : List ValueWish} (h : Wired ms wishes edges) :
    ∀ d ∈ edges.map ValueEdge.dependency, d.1 < ms.length := by
  intro d hd
  obtain ⟨e, he, rfl⟩ := List.mem_map.mp hd
  obtain ⟨_, _, source, _, _, _, hs, _⟩ := h.exists_joins he
  exact (List.getElem?_eq_some_iff.mp hs.entry).1

theorem cycle?_eq_none {wishes : List ValueWish} (wired : Wired b.members wishes edges)
    (acyclic : ∀ n, ¬ Relation.TransGen (Feeds edges) n n) : b.cycle? edges = none := by
  have free := (Peel.stuck?_eq_none_iff wired.source_lt).mpr fun i cycle =>
    acyclic ⟨i⟩ (transGen_leads_iff.mp cycle)
  simp [cycle?, free]

theorem cycle?_eq_some {wishes : List ValueWish} (wired : Wired b.members wishes edges) {n : NodeId}
    {m : Member} (stuck : Unplaceable edges n)
    (first : ∀ other, Unplaceable edges other → n.index ≤ other.index)
    (member : b.members[n.index]? = some m) : b.cycle? edges = some (.valueCycle m.name) := by
  have found : Peel.stuck? b.members.length (edges.map ValueEdge.dependency) = some n.index := by
    refine (Peel.stuck?_eq_some_iff wired.source_lt).mpr
      ⟨(List.getElem?_eq_some_iff.mp member).1, behindCycle_iff.mpr stuck, fun j hj behind => ?_⟩
    exact absurd (first ⟨j⟩ (behindCycle_iff.mp behind)) (Nat.not_le.mpr hj)
  simp [cycle?, found, member]

/-- There is no cycle, or there is a first node without a place. -/
theorem acyclic_or_stuck {wishes : List ValueWish} (wired : Wired ms wishes edges) :
    (∀ n, ¬ Relation.TransGen (Feeds edges) n n) ∨ ∃ n m, Unplaceable edges n ∧
      (∀ other, Unplaceable edges other → n.index ≤ other.index) ∧ ms[n.index]? = some m := by
  cases found : Peel.stuck? ms.length (edges.map ValueEdge.dependency) with
  | none =>
      exact .inl fun n cycle =>
        (Peel.stuck?_eq_none_iff wired.source_lt).mp found n.index (transGen_leads_iff.mpr cycle)
  | some i =>
      obtain ⟨bound, behind, before⟩ := (Peel.stuck?_eq_some_iff wired.source_lt).mp found
      refine .inr ⟨⟨i⟩, ms[i], behindCycle_iff.mp behind, fun other stuck => ?_,
        List.getElem?_eq_getElem bound⟩
      exact Nat.le_of_not_lt fun less => before other.index less (behindCycle_iff.mpr stuck)

/-! ## The whole of building -/

/-- The graph that valid calls describe. -/
def graphOf (name : String) (config : Config) (calls : List Call) (values : List ValueEdge)
    (flows : List FlowEdge) : Graph where
  name
  config
  members := membersOf calls
  valueEdges := values
  flowEdges := flows

/-- A graph has what the calls ask for. Ids follow the order of the additions, and the connections of
each input and of each flow output are those made to it, in the order of the calls. -/
structure Realizes (name : String) (config : Config) (calls : List Call) (values : List ValueEdge)
    (flows : List FlowEdge) (g : Graph) : Prop where
  exact : g = graphOf name config calls values flows
  member : ∀ k, g.member? ⟨k⟩ = (membersOf calls)[k]?
  id : ∀ n k, g.id? n = some ⟨k⟩ ↔ (namesOf calls)[k]? = some n
  sources : ∀ input, g.sources input = (values.filter (·.target = input)).map (·.source)
  targets : ∀ flow, g.targets flow = (flows.filter (·.source = flow)).map (·.target)

section

variable {name : String} {config : Config} {calls : List Call} {values : List ValueEdge}
  {flows : List FlowEdge}

/-- A name is looked up in the list of all names. -/
theorem id?_graphOf (h : Additions calls) (n : String) (k : Nat) :
    (graphOf name config calls values flows).id? n = some ⟨k⟩ ↔ (namesOf calls)[k]? = some n := by
  have find : (graphOf name config calls values flows).id? n = some ⟨k⟩ ↔
      (membersOf calls).findIdx? (·.name == n) = some k := by
    simp [Graph.id?, graphOf]
  rw [find, ← h.map_name, List.getElem?_map, Option.map_eq_some_iff]
  constructor
  · intro found
    obtain ⟨bound, named, _⟩ := List.findIdx?_eq_some_iff_getElem.mp found
    exact ⟨_, List.getElem?_eq_getElem bound, by simpa using named⟩
  · rintro ⟨m, hm, rfl⟩
    have nodup : ((membersOf calls).map (·.name)).Nodup := h.map_name ▸ h.nodup
    exact (FirstNamed.of_nodup nodup hm rfl).findIdx?_eq

theorem realizes_graphOf (h : Additions calls) :
    Realizes name config calls values flows (graphOf name config calls values flows) where
  exact := rfl
  member _ := rfl
  id := id?_graphOf h
  sources _ := rfl
  targets _ := rfl

/-- What is left of building once every addition has succeeded. -/
theorem build_of_additions (h : Additions calls) :
    (({ name, config } : Blueprint).callAll calls).build = (do
      let values ← (valueWishesOf calls).foldlM (described name config calls).resolveValue []
      let flows ← (flowWishesOf calls).mapM (described name config calls).resolveFlow
      match (described name config calls).missingInput? values with
      | some e => .error e
      | none =>
        match (described name config calls).cycle? values with
        | some e => .error e
        | none => .ok (graphOf name config calls values flows)) := by
  rw [callAll_of_additions h]
  rfl

theorem build_of_valid (h : Valid calls values flows) :
    (({ name, config } : Blueprint).callAll calls).build =
      .ok (graphOf name config calls values flows) := by
  have complete := missingInput?_of_complete (b := described name config calls) h.complete
  have acyclic := cycle?_eq_none (b := described name config calls) h.wired h.acyclic
  rw [build_of_additions h.additions, foldlM_of_wired (b := described name config calls) h.wired,
    mapM_of_started (b := described name config calls) h.started]
  simp only [complete, acyclic, bind, Except.bind]

theorem build_of_firstFailure {e : BuildError} (h : FirstFailure calls e) :
    (({ name, config } : Blueprint).callAll calls).build = .error e := by
  cases h with
  | addition split fine fails => rw [split, build, failure_of_first fine fails]
  | value additions split wired fails =>
      rw [build_of_additions additions, split,
        foldlM_of_valueFailure (b := described name config calls) wired fails]
      rfl
  | flow additions wired split started fails =>
      rw [build_of_additions additions, foldlM_of_wired (b := described name config calls) wired,
        split, mapM_of_flowFailure (b := described name config calls) started fails]
      rfl
  | required additions wired started missing first member =>
      have found := missingInput?_of_first (b := described name config calls) missing first member
      rw [build_of_additions additions, foldlM_of_wired (b := described name config calls) wired,
        mapM_of_started (b := described name config calls) started]
      simp only [found, bind, Except.bind]
  | cycle additions wired started complete stuck first member =>
      have passed := missingInput?_of_complete (b := described name config calls) complete
      have found := cycle?_eq_some (b := described name config calls) wired stuck first member
      rw [build_of_additions additions, foldlM_of_wired (b := described name config calls) wired,
        mapM_of_started (b := described name config calls) started]
      simp only [passed, found, bind, Except.bind]

theorem valid_or_firstFailure (calls : List Call) :
    (∃ values flows, Valid calls values flows) ∨ ∃ e, FirstFailure calls e := by
  rcases additions_or_failure calls with additions | ⟨before, c, after, e, split, fine, fails⟩
  · rcases wired_or_failure (membersOf calls) (valueWishesOf calls) with
      ⟨values, wired⟩ | ⟨before, w, after, values, e, split, wired, fails⟩
    · rcases started_or_failure (membersOf calls) (flowWishesOf calls) with
        ⟨flows, started⟩ | ⟨before, w, after, flows, e, split, started, fails⟩
      · cases found : (described "" {} calls).missingInput? values with
        | some err =>
            obtain ⟨input, i, m, missing, member, _, first⟩ := missingInput?_eq_some found
            exact .inr ⟨_, .required additions wired started missing first member⟩
        | none =>
            have complete := missingInput?_eq_none found
            rcases acyclic_or_stuck wired with acyclic | ⟨n, m, stuck, first, member⟩
            · exact .inl ⟨values, flows, additions, wired, started, complete, acyclic⟩
            · exact .inr ⟨_, .cycle additions wired started complete stuck first member⟩
      · exact .inr ⟨e, .flow additions wired split started fails⟩
    · exact .inr ⟨e, .value additions split wired fails⟩
  · exact .inr ⟨e, .addition split fine fails⟩

/-- A graph that building returns is described by valid calls. -/
theorem valid_of_build {g : Graph} (built : (({ name, config } : Blueprint).callAll calls).build = .ok g) :
    ∃ values flows, Valid calls values flows ∧ g = graphOf name config calls values flows := by
  rcases valid_or_firstFailure calls with ⟨values, flows, valid⟩ | ⟨e, fails⟩
  · exact ⟨values, flows, valid, Except.ok.inj (built.symm.trans (build_of_valid valid))⟩
  · rw [build_of_firstFailure fails] at built
    cases built

/-- If building fails, then for the first failure. -/
theorem firstFailure_of_build {e : BuildError}
    (failed : (({ name, config } : Blueprint).callAll calls).build = .error e) :
    FirstFailure calls e := by
  rcases valid_or_firstFailure calls with ⟨values, flows, valid⟩ | ⟨e', fails⟩
  · rw [build_of_valid valid] at failed
    cases failed
  · rw [build_of_firstFailure fails] at failed
    cases failed
    exact fails

end

/-- Building returns a graph exactly if the calls are valid, and then the graph they describe; it
returns an error exactly if the calls have a first failure, and then that one. -/
theorem build_accepts_exactly_valid (name : String) (config : Config) (calls : List Call) :
    (∀ g, (({ name, config } : Blueprint).callAll calls).build = .ok g ↔
      ∃ values flows, Valid calls values flows ∧ Realizes name config calls values flows g) ∧
    ∀ e, (({ name, config } : Blueprint).callAll calls).build = .error e ↔ FirstFailure calls e := by
  refine ⟨fun g => ⟨fun built => ?_, ?_⟩, fun e => ⟨firstFailure_of_build, build_of_firstFailure⟩⟩
  · obtain ⟨values, flows, valid, rfl⟩ := valid_of_build built
    exact ⟨values, flows, valid, realizes_graphOf valid.additions⟩
  · rintro ⟨values, flows, valid, realizes⟩
    rw [realizes.exact]
    exact build_of_valid valid

end Blueprint

end FlowGraph
