import Mathlib.Data.List.Basic
import FlowGraph.Proofs.Registering

/-!
# What a registry creates and what it lists

Whether a name is generic depends on everything that was registered under it. The filter of a name says so: a
registry creates a node for a type argument of the filter, or without an argument if the filter is empty, and
turns everything else down for a reason that follows from the filter alone. What it creates was registered last.

The catalogue lists every name once with its filter. It describes a name by the plain node if there is one, also
where the name is generic, so that this node can not be created.
-/

namespace FlowGraph

namespace NodeType

variable {t : NodeType} {type : ValueType}

theorem isGeneric_iff : t.isGeneric = true ↔ t.filter ≠ [] := by
  simp [isGeneric, filter]

theorem mem_filter_iff : type ∈ t.filter ↔ (t.node? (some type)).isSome = true := by
  rw [node?, ← Option.ne_none_iff_isSome, Ne, show t.instance? type = valueOf? t.instances type from rfl,
    valueOf?_eq_none_iff]
  simp [filter]

theorem WellFormed.sorted_filter (wellFormed : t.WellFormed) : t.filter.Pairwise fun a b => a.rank < b.rank :=
  List.pairwise_map.mpr (wellFormed.inOrder.imp fun first => by simpa using first)

/-- There is a plain node to a node type that is not generic. -/
theorem WellFormed.exists_plain (wellFormed : t.WellFormed) (notGeneric : t.filter = []) :
    ∃ n, t.plain = some n := by
  obtain ⟨key, n, present⟩ := wellFormed.inhabited
  cases key with
  | none => exact ⟨n, present⟩
  | some type =>
      have member : type ∈ t.filter := mem_filter_iff.mpr (by rw [present]; rfl)
      rw [notGeneric] at member
      cases member

/-- The node that describes a type without a plain node is the one for the first value type of the filter. -/
theorem WellFormed.representative?_eq (wellFormed : t.WellFormed) (generic : t.plain = none) :
    ∃ type n, t.filter.head? = some type ∧ t.instance? type = some n ∧ t.representative? = some n := by
  obtain ⟨plain, instances⟩ := t
  cases generic
  cases instances with
  | nil =>
      obtain ⟨_, plain⟩ := wellFormed.exists_plain rfl
      cases plain
  | cons e rest => exact ⟨e.1, e.2, rfl, by simp [instance?], rfl⟩

theorem WellFormed.exists_representative (wellFormed : t.WellFormed) : ∃ n, t.representative? = some n := by
  cases plain : t.plain with
  | some n => exact ⟨n, by rw [representative?, plain]⟩
  | none =>
      obtain ⟨_, n, _, _, stands⟩ := wellFormed.representative?_eq plain
      exact ⟨n, stands⟩

end NodeType

namespace Registry

/-- The type arguments that are right for a name, by its filter. -/
inductive Accepts : (filter? : Option (List ValueType)) → (arg : Option ValueType) → Prop where
  | plain : Accepts (some []) none
  | generic {types type} (member : type ∈ types) : Accepts (some types) (some type)

/-- Why a type argument is wrong for a name, by its filter. -/
inductive Refuses (name : String) :
    (filter? : Option (List ValueType)) → (arg : Option ValueType) → BuildError → Prop where
  | unknown {arg} : Refuses name none arg (.unknownNodeType name)
  | unexpected {type} : Refuses name (some []) (some type) (.unexpectedTypeArgument name)
  | missing {types} (generic : types ≠ []) : Refuses name (some types) none (.missingTypeArgument name)
  | outside {types type} (generic : types ≠ []) (outside : type ∉ types) :
      Refuses name (some types) (some type) (.typeNotInFilter name type)

variable {r : Registry} {name : String} {t : NodeType} {filter? : Option (List ValueType)}
  {arg : Option ValueType} {n : Node} {e e' : BuildError}

theorem Refuses.unique (h : Refuses name filter? arg e) (h' : Refuses name filter? arg e') : e = e' := by
  cases h with
  | unexpected => cases h' with
    | unexpected => rfl
    | outside generic => exact absurd rfl generic
  | outside generic => cases h' with
    | unexpected => exact absurd rfl generic
    | outside => rfl
  | unknown | missing => cases h'; rfl

theorem Accepts.not_refuses (h : Accepts filter? arg) : ¬ Refuses name filter? arg e := by
  intro refuses
  cases h with
  | plain => cases refuses with | missing generic => exact generic rfl
  | generic member => cases refuses with
    | unexpected => cases member
    | outside _ outside => exact outside member

theorem accepts_some_iff {type : ValueType} :
    Accepts filter? (some type) ↔ ∃ types, filter? = some types ∧ type ∈ types :=
  ⟨fun | .generic member => ⟨_, rfl, member⟩, fun ⟨_, known, member⟩ => known ▸ .generic member⟩

theorem accepts_none_iff : Accepts filter? none ↔ filter? = some [] :=
  ⟨fun | .plain => rfl, fun known => known ▸ .plain⟩

/-- A registry creates the node that it has for the argument, if the argument is right, and otherwise says why it
is wrong. -/
theorem create_cases (wellFormed : r.WellFormed) (name : String) (arg : Option ValueType) :
    (Accepts (r.filter? name) arg ∧ ∃ n, r.create name arg = .ok n ∧ r.node? name arg = some n) ∨
      ∃ e, Refuses name (r.filter? name) arg e ∧ r.create name arg = .error e := by
  cases found : r.type? name with
  | none => exact .inr ⟨_, by rw [Registry.filter?, found]; exact .unknown, by rw [create, found]⟩
  | some t =>
      have wellFormed := wellFormed.types name t found
      rw [Registry.filter?, node?, create, found]
      simp only [Option.map_some, Option.bind_some]
      cases generic : t.isGeneric with
      | false =>
          have plain : t.filter = [] := by
            simpa [generic] using NodeType.isGeneric_iff (t := t)
          rw [plain]
          cases arg with
          | none =>
              obtain ⟨n, present⟩ := wellFormed.exists_plain plain
              exact .inl ⟨.plain, n, by rw [present], present⟩
          | some type => exact .inr ⟨_, .unexpected, rfl⟩
      | true =>
          have generic := NodeType.isGeneric_iff.mp generic
          cases arg with
          | none => exact .inr ⟨_, .missing generic, rfl⟩
          | some type =>
              have member : type ∈ t.filter ↔ (t.instance? type).isSome = true := NodeType.mem_filter_iff
              rw [NodeType.node?]
              cases present : t.instance? type with
              | some n => exact .inl ⟨.generic (member.mpr (by rw [present]; rfl)), n, by simp only [present], rfl⟩
              | none => exact .inr ⟨_, .outside generic (by simp [member, present]), by simp only [present]⟩

theorem create_eq_error_iff (wellFormed : r.WellFormed) :
    r.create name arg = .error e ↔ Refuses name (r.filter? name) arg e := by
  rcases create_cases wellFormed name arg with ⟨accepts, n, creates, _⟩ | ⟨e', refuses, fails⟩
  · rw [creates]
    exact ⟨nofun, fun refuses => absurd refuses accepts.not_refuses⟩
  · rw [fails]
    exact ⟨fun same => by cases same; exact refuses, fun refuses' => by rw [refuses.unique refuses']⟩

theorem create_eq_ok_iff (wellFormed : r.WellFormed) :
    r.create name arg = .ok n ↔ Accepts (r.filter? name) arg ∧ r.node? name arg = some n := by
  rcases create_cases wellFormed name arg with ⟨accepts, n', creates, present⟩ | ⟨e', refuses, fails⟩
  · rw [creates, present, Except.ok.injEq, Option.some.injEq, and_iff_right accepts]
  · rw [fails]
    exact ⟨nofun, fun both => absurd refuses both.1.not_refuses⟩

theorem exists_create_eq_ok_iff (wellFormed : r.WellFormed) :
    (∃ n, r.create name arg = .ok n) ↔ Accepts (r.filter? name) arg := by
  rcases create_cases wellFormed name arg with ⟨accepts, n, creates, _⟩ | ⟨e', refuses, fails⟩
  · exact ⟨fun _ => accepts, fun _ => ⟨n, creates⟩⟩
  · rw [fails]
    exact ⟨nofun, fun accepts => absurd refuses accepts.not_refuses⟩

/-- A name that nothing was registered under is unknown, and no other one is. -/
theorem type?_ofList_eq_none_iff {history : List Registration} :
    (ofList history).type? name = none ↔ ∀ reg ∈ history, reg.name ≠ name := by
  rw [type?_eq_none_iff (wellFormed_ofList history)]
  simp only [node?_ofList, ← Option.not_isSome_iff_eq_none, isSome_lastNode?_iff]
  exact ⟨fun nothing reg member here => nothing reg.type ⟨reg, member, here, rfl⟩,
    fun foreign key ⟨reg, member, here, _⟩ => foreign reg member here⟩

/-- What a registry tells and creates under a name, by what was registered. -/
structure Offers (r : Registry) (history : List Registration) (name : String) : Prop where
  unknown : r.filter? name = none ↔ ∀ reg ∈ history, reg.name ≠ name
  /-- The filter has the value types in order, and each of them once. -/
  sorted : ∀ types, r.filter? name = some types → types.Pairwise fun a b => a.rank < b.rank
  registered : ∀ types, r.filter? name = some types →
    ∀ type, type ∈ types ↔ ∃ reg ∈ history, reg.name = name ∧ reg.type = some type
  createsGeneric : ∀ type, (∃ n, r.create name (some type) = .ok n) ↔
    ∃ types, r.filter? name = some types ∧ type ∈ types
  createsPlain : (∃ n, r.create name none = .ok n) ↔ r.filter? name = some []
  latest : ∀ arg n, r.create name arg = .ok n → lastNode? history name arg = some n
  refuses : ∀ arg e, r.create name arg = .error e ↔ Refuses name (r.filter? name) arg e
  /-- A name that is not generic has a plain node, so there is always one to create. -/
  plain : ∀ t, r.type? name = some t → t.isGeneric = false → t.plain.isSome = true

/-- Whatever has been registered in whatever order, what is created agrees with the filters: a node is created
exactly for the arguments that the filter of a name admits, it is the one that was registered last, and otherwise
the filter tells the error. Registering two nodes in the other order makes no difference, unless one of them
replaces the other. -/
theorem create_agrees_with_filter (history : List Registration) :
    (∀ name, (ofList history).Offers history name) ∧
      ∀ before a b after, history = before ++ a :: b :: after → (a.name, a.type) ≠ (b.name, b.type) →
        ofList (before ++ b :: a :: after) = ofList history := by
  have wellFormed := wellFormed_ofList history
  refine ⟨fun name => ?_, fun before a b after same differ => by rw [same, ofList_swap differ]⟩
  constructor
  case unknown => rw [Registry.filter?, Option.map_eq_none_iff, type?_ofList_eq_none_iff]
  case sorted =>
    intro types known
    obtain ⟨t, found, rfl⟩ := Option.map_eq_some_iff.mp known
    exact (wellFormed.types name t found).sorted_filter
  case registered =>
    intro types known type
    obtain ⟨t, found, rfl⟩ := Option.map_eq_some_iff.mp known
    rw [← isSome_lastNode?_iff, ← node?_ofList, node?, found]
    exact NodeType.mem_filter_iff
  case createsGeneric => exact fun type => (exists_create_eq_ok_iff wellFormed).trans accepts_some_iff
  case createsPlain => exact (exists_create_eq_ok_iff wellFormed).trans accepts_none_iff
  case latest =>
    intro arg n creates
    rw [← node?_ofList]
    exact ((create_eq_ok_iff wellFormed).mp creates).2
  case refuses => exact fun arg e => create_eq_error_iff wellFormed
  case plain =>
    intro t found notGeneric
    obtain ⟨n, present⟩ := (wellFormed.types name t found).exists_plain
      (by simpa [notGeneric] using NodeType.isGeneric_iff (t := t))
    rw [present]
    rfl

/-! ## The catalogue -/

theorem mem_types_iff (wellFormed : r.WellFormed) : (name, t) ∈ r.types ↔ r.type? name = some t :=
  wellFormed.inOrder.mem_iff ordersKeys_name

theorem mem_names_iff (wellFormed : r.WellFormed) : name ∈ r.names ↔ r.type? name ≠ none := by
  simp [names, mem_types_iff wellFormed, Option.ne_none_iff_exists']

/-- A node type is listed with the node that stands for it. -/
theorem mem_catalogue_iff (wellFormed : r.WellFormed) {entry : CatalogueEntry} :
    entry ∈ r.catalogue ↔ ∃ t n, r.type? entry.name = some t ∧ t.representative? = some n ∧
      entry = ⟨entry.name, n.descriptor.category, t.filter, n.descriptor⟩ := by
  simp only [catalogue, List.mem_filterMap, Option.map_eq_some_iff]
  constructor
  · rintro ⟨⟨name, t⟩, member, n, stands, rfl⟩
    exact ⟨t, n, (mem_types_iff wellFormed).mp member, stands, rfl⟩
  · rintro ⟨t, n, found, stands, same⟩
    exact ⟨(entry.name, t), (mem_types_iff wellFormed).mpr found, n, stands, same.symm⟩

/-- Every name is listed once. -/
theorem catalogue_names (wellFormed : r.WellFormed) : r.catalogue.map (·.name) = r.names := by
  rw [catalogue, List.map_filterMap, names, ← List.filterMap_eq_map]
  refine List.filterMap_congr fun ⟨name, t⟩ member => ?_
  have wellFormed := wellFormed.types name t ((mem_types_iff wellFormed).mp member)
  obtain ⟨n, stands⟩ := wellFormed.exists_representative
  simp [stands]

/-- A name without a plain node is described by the node that is created for the first value type of its
filter, and a name with nothing else by its plain node. -/
theorem create_representative (wellFormed : r.WellFormed) (found : r.type? name = some t)
    (stands : t.representative? = some n) (pure : t.plain = none ∨ t.filter = []) :
    r.create name t.filter.head? = .ok n := by
  rw [create_eq_ok_iff wellFormed, Registry.filter?, node?, found]
  have wellFormed := wellFormed.types name t found
  rcases pure with generic | notGeneric
  · obtain ⟨type, n', first, present, stands'⟩ := wellFormed.representative?_eq generic
    cases stands.symm.trans stands'
    rw [first]
    exact ⟨.generic (List.mem_of_head? first), present⟩
  · obtain ⟨n', present⟩ := wellFormed.exists_plain notGeneric
    rw [NodeType.representative?, present] at stands
    cases stands
    rw [notGeneric]
    exact ⟨accepts_none_iff.mpr (congrArg some notGeneric), present⟩

/-- Whatever has been registered in whatever order, the catalogue lists each name once, in order, with its filter,
and describes it by a node that is registered under it: by the plain node that was registered last, if there is
one. Unless the name has both a plain node and others, this is the node that is created for the first value type
of the filter, or without a type argument if the filter is empty. -/
theorem catalogue_describes (history : List Registration) :
    (ofList history).names.Pairwise (· < ·) ∧
    (∀ name, name ∈ (ofList history).names ↔ ∃ reg ∈ history, reg.name = name) ∧
    (ofList history).catalogue.map (·.name) = (ofList history).names ∧
    ∀ entry ∈ (ofList history).catalogue,
      (ofList history).filter? entry.name = some entry.filter ∧
      ∃ n, entry.descriptor = n.descriptor ∧ entry.category = n.descriptor.category ∧
        (∀ plain, lastNode? history entry.name none = some plain → n = plain) ∧
        (lastNode? history entry.name none = none ∨ entry.filter = [] →
          (ofList history).create entry.name entry.filter.head? = .ok n) := by
  have wellFormed := wellFormed_ofList history
  refine ⟨?_, fun name => ?_, catalogue_names wellFormed, fun entry listed => ?_⟩
  · exact List.pairwise_map.mpr (wellFormed.inOrder.imp fun first => by simpa using first)
  · rw [mem_names_iff wellFormed, Ne, type?_ofList_eq_none_iff]
    simp
  · obtain ⟨t, n, found, stands, same⟩ := (mem_catalogue_iff wellFormed).mp listed
    have filter : entry.filter = t.filter := congrArg CatalogueEntry.filter same
    have plain : lastNode? history entry.name none = t.plain := by
      rw [← node?_ofList, node?, found]
      rfl
    refine ⟨by rw [Registry.filter?, found, filter]; rfl, n, congrArg CatalogueEntry.descriptor same,
      congrArg CatalogueEntry.category same, fun n' registered => ?_, ?_⟩
    · rw [plain] at registered
      rw [NodeType.representative?, registered] at stands
      exact (Option.some.inj stands).symm
    · rw [plain, filter]
      exact create_representative wellFormed found stands

/-- A name under which a loop was registered as a plain node, and addition for numbers. -/
def ambiguous : List Registration :=
  [⟨"Step", none, CatalogueNode.forLoop.node⟩, ⟨"Step", some .int, (CatalogueNode.add .int).node⟩]

/-- The catalogue describes the loop, which cannot be created any more: what is created is an addition. -/
theorem catalogue_describes_hidden_node :
    ∃ entry n, (ofList ambiguous).catalogue = [entry] ∧ entry.filter = [.int] ∧
      (ofList ambiguous).create entry.name entry.filter.head? = .ok n ∧
      n.descriptor = (CatalogueNode.add .int).descriptor ∧ entry.descriptor = CatalogueNode.forLoop.descriptor ∧
      entry.descriptor.name ≠ n.descriptor.name ∧ entry.category ≠ n.descriptor.category := by
  refine ⟨_, _, rfl, rfl, rfl, rfl, rfl, by decide, by decide⟩

end Registry

end FlowGraph
