import Mathlib.Data.List.Induction
import FlowGraph.Registry

/-!
# What registering leaves behind

Both levels of a registry are lists of entries in the order of their keys, and no key occurs twice. So such a
list is known by what it has for each key: putting something under a key changes that and nothing else, and two
lists that have the same for every key are the same. For a registry this means that it knows a history of
registrations only by the node that was registered last under each name and value type. In which order different
ones were registered leaves no trace.
-/

namespace FlowGraph

/-! ## Entries in the order of their keys -/

/-- Of two different keys exactly one comes before the other. -/
structure OrdersKeys {κ : Type} (before : κ → κ → Bool) : Prop where
  trans : ∀ {a b c}, before a b = true → before b c = true → before a c = true
  asymm : ∀ {a b}, before a b = true → before b a = false
  total : ∀ {a b}, a ≠ b → before a b = false → before b a = true

/-- Every entry has a key before those of the entries behind it. -/
def InOrder {κ α : Type} (before : κ → κ → Bool) (entries : List (κ × α)) : Prop :=
  entries.Pairwise fun a b => before a.1 b.1 = true

/-- What some entries have for a key. -/
def valueOf? {κ α : Type} [DecidableEq κ] (entries : List (κ × α)) (key : κ) : Option α :=
  (entries.find? (·.1 = key)).map Prod.snd

section

variable {κ α : Type} {before : κ → κ → Bool} {entries entries' : List (κ × α)} {key j : κ}

theorem OrdersKeys.irrefl (orders : OrdersKeys before) (a : κ) : before a a = false := by
  cases same : before a a with
  | false => rfl
  | true => exact same.symm.trans (orders.asymm same)

theorem OrdersKeys.ne (orders : OrdersKeys before) {a b : κ} (first : before a b = true) : a ≠ b := by
  rintro rfl
  rw [orders.irrefl] at first
  cases first

variable [DecidableEq κ]

@[simp] theorem valueOf?_nil : valueOf? ([] : List (κ × α)) key = none := rfl

theorem valueOf?_cons (k : κ) (a : α) :
    valueOf? ((k, a) :: entries) key = if k = key then some a else valueOf? entries key := by
  rw [valueOf?, List.find?_cons]
  by_cases same : k = key <;> simp [same, valueOf?]

theorem valueOf?_eq_none_iff : valueOf? entries key = none ↔ ∀ e ∈ entries, e.1 ≠ key := by
  simp [valueOf?]

/-- A key that comes before all keys is none of them. -/
theorem valueOf?_of_before (orders : OrdersKeys before) (first : ∀ e ∈ entries, before key e.1 = true) :
    valueOf? entries key = none :=
  valueOf?_eq_none_iff.mpr fun e member => (orders.ne (first e member)).symm

/-- What entries in order have for a key is the one entry with this key. -/
theorem InOrder.mem_iff (orders : OrdersKeys before) (inOrder : InOrder before entries) {a : α} :
    (key, a) ∈ entries ↔ valueOf? entries key = some a := by
  induction entries with
  | nil => simp
  | cons e rest ih =>
      obtain ⟨k, b⟩ := e
      obtain ⟨first, later⟩ := List.pairwise_cons.mp inOrder
      rw [List.mem_cons, ih later, valueOf?_cons]
      by_cases same : k = key
      · subst same
        simp [valueOf?_of_before orders first, eq_comm]
      · simp [same, Ne.symm same]

/-- Entries in order are the same if they have the same for every key. -/
theorem InOrder.ext (orders : OrdersKeys before) (inOrder : InOrder before entries)
    (inOrder' : InOrder before entries') (same : ∀ key, valueOf? entries key = valueOf? entries' key) :
    entries = entries' := by
  have distinct {a b : κ × α} (first : before a.1 b.1 = true) : a ≠ b := fun eq =>
    orders.ne first (congrArg Prod.fst eq)
  have perm : entries.Perm entries' := by
    refine (List.perm_ext_iff_of_nodup (inOrder.imp distinct) (inOrder'.imp distinct)).mpr fun ⟨key, a⟩ => ?_
    rw [inOrder.mem_iff orders, inOrder'.mem_iff orders, same]
  refine perm.eq_of_pairwise (fun a b _ _ first last => ?_) inOrder inOrder'
  rw [orders.asymm first] at last
  cases last

variable {value : Option α → α}

theorem key_of_mem_upsert {e : κ × α} (member : e ∈ upsert before key value entries) :
    e.1 = key ∨ e ∈ entries := by
  induction entries with
  | nil => exact .inl (congrArg Prod.fst (List.mem_singleton.mp member))
  | cons first rest ih =>
      rw [upsert] at member
      split at member
      next same =>
        rcases List.mem_cons.mp member with rfl | behind
        · exact .inl same
        · exact .inr (List.mem_cons_of_mem _ behind)
      next =>
        split at member
        next =>
          rcases List.mem_cons.mp member with rfl | behind
          · exact .inl rfl
          · exact .inr behind
        next =>
          rcases List.mem_cons.mp member with rfl | behind
          · exact .inr (List.mem_cons_self ..)
          · exact (ih behind).imp_right (List.mem_cons_of_mem _)

/-- Putting something under a key keeps the order. -/
theorem inOrder_upsert (orders : OrdersKeys before) (inOrder : InOrder before entries) :
    InOrder before (upsert before key value entries) := by
  induction entries with
  | nil => exact List.pairwise_singleton ..
  | cons e rest ih =>
      obtain ⟨k, a⟩ := e
      obtain ⟨first, later⟩ := List.pairwise_cons.mp inOrder
      rw [FlowGraph.upsert]
      split
      next => exact List.pairwise_cons.mpr ⟨first, later⟩
      next differs =>
        split
        next ahead =>
          refine List.pairwise_cons.mpr ⟨fun e member => ?_, inOrder⟩
          rcases List.mem_cons.mp member with rfl | behind
          · exact ahead
          · exact orders.trans ahead (first e behind)
        next notAhead =>
          refine List.pairwise_cons.mpr ⟨fun e member => ?_, ih later⟩
          rcases key_of_mem_upsert member with rfl | behind
          · exact orders.total (Ne.symm differs) (by simpa using notAhead)
          · exact first e behind

/-- Putting something under a key changes what there is for this key only. -/
theorem valueOf?_upsert (orders : OrdersKeys before) (inOrder : InOrder before entries) :
    valueOf? (upsert before key value entries) j =
      if j = key then some (value (valueOf? entries key)) else valueOf? entries j := by
  induction entries with
  | nil => simp [upsert, valueOf?_cons, eq_comm]
  | cons e rest ih =>
      obtain ⟨k, a⟩ := e
      obtain ⟨first, later⟩ := List.pairwise_cons.mp inOrder
      rw [upsert]
      split
      next same =>
        subst same
        by_cases here : j = k
        · simp [valueOf?_cons, here]
        · simp [valueOf?_cons, here, Ne.symm here]
      next differs =>
        split
        next ahead =>
          have missing : valueOf? ((k, a) :: rest) key = none := by
            refine valueOf?_of_before orders fun e member => ?_
            rcases List.mem_cons.mp member with rfl | behind
            · exact ahead
            · exact orders.trans ahead (first e behind)
          rw [missing, valueOf?_cons]
          simp [eq_comm]
        next =>
          rw [valueOf?_cons, ih later, valueOf?_cons, valueOf?_cons]
          by_cases here : j = key
          · simp [here, differs]
          · simp [here]

end

/-- Names come in the order of their characters. -/
theorem ordersKeys_name : OrdersKeys fun a b : String => a < b where
  trans first second := by
    simp only [decide_eq_true_eq] at *
    exact String.lt_trans first second
  asymm first := by
    simp only [decide_eq_true_eq, decide_eq_false_iff_not] at *
    exact String.lt_asymm first
  total differs notFirst := by
    simp only [decide_eq_true_eq, decide_eq_false_iff_not] at *
    exact Decidable.byContradiction fun notSecond =>
      differs (String.le_antisymm (String.not_lt.mp notSecond) (String.not_lt.mp notFirst))

/-- Value types come in the order of their ranks. -/
theorem ordersKeys_rank : OrdersKeys fun a b : ValueType => a.rank < b.rank where
  trans first second := by
    simp only [decide_eq_true_eq] at *
    omega
  asymm first := by
    simp only [decide_eq_true_eq, decide_eq_false_iff_not] at *
    omega
  total {a b} differs notFirst := by
    have ranks : a.rank ≠ b.rank := fun same => differs (ValueType.rank_injective same)
    simp only [decide_eq_true_eq, decide_eq_false_iff_not] at *
    omega

/-! ## Node types -/

namespace NodeType

variable {t : NodeType}

/-- The node that a type has for a value type, or as a plain one. -/
def node? (t : NodeType) : Option ValueType → Option Node
  | none => t.plain
  | some type => t.instance? type

/-- A node type as registering leaves it: its instances are in order, and there is some node to it. -/
structure WellFormed (t : NodeType) : Prop where
  inOrder : InOrder (fun a b => a.rank < b.rank) t.instances
  inhabited : ∃ key n, t.node? key = some n

/-- A node type when one more node has been registered for it. -/
def adding (reg : Registration) (t? : Option NodeType) : NodeType :=
  match reg.type with
  | none => (t?.getD {}).setPlain reg.node
  | some type => (t?.getD {}).setInstance type reg.node

section

variable {t? : Option NodeType} (wellFormed : ∀ t ∈ t?, t.WellFormed) (reg : Registration)

include wellFormed

theorem inOrder_getD : InOrder (fun a b => a.rank < b.rank) (t?.getD {}).instances := by
  cases t? with
  | none => exact .nil
  | some t => exact (wellFormed t rfl).inOrder

/-- Registering a node for a type replaces what was registered under the same value type. -/
theorem node?_adding (key : Option ValueType) :
    (adding reg t?).node? key = if key = reg.type then some reg.node else t?.bind (·.node? key) := by
  have before : t?.bind (·.node? key) = (t?.getD {}).node? key := by
    cases t? with
    | none => cases key <;> rfl
    | some t => rfl
  rw [before, adding]
  cases reg.type with
  | none => cases key <;> rfl
  | some registered =>
      cases key with
      | none => rfl
      | some type =>
          rw [if_congr (Option.some_inj (a := type)) rfl rfl]
          exact valueOf?_upsert ordersKeys_rank (inOrder_getD wellFormed)

theorem wellFormed_adding : (adding reg t?).WellFormed where
  inOrder := by
    rw [adding]
    cases reg.type with
    | none => exact inOrder_getD wellFormed
    | some type => exact inOrder_upsert ordersKeys_rank (inOrder_getD wellFormed)
  inhabited := ⟨reg.type, reg.node, by rw [node?_adding wellFormed, if_pos rfl]⟩

end

/-- A node type is known by its nodes. -/
theorem ext_node? {t t' : NodeType} (wellFormed : t.WellFormed) (wellFormed' : t'.WellFormed)
    (same : ∀ key, t.node? key = t'.node? key) : t = t' := by
  obtain ⟨plain, instances⟩ := t
  obtain ⟨plain', instances'⟩ := t'
  obtain rfl : plain = plain' := same none
  obtain rfl := wellFormed.inOrder.ext ordersKeys_rank wellFormed'.inOrder fun type => same (some type)
  rfl

end NodeType

/-! ## Registries -/

namespace Registry

variable {r r' : Registry} {name : String} {key : Option ValueType} {n : Node}

/-- The node under a name, for a value type or as a plain one. -/
def node? (r : Registry) (name : String) (key : Option ValueType) : Option Node :=
  (r.type? name).bind (·.node? key)

/-- A registry as registering leaves it. -/
structure WellFormed (r : Registry) : Prop where
  inOrder : InOrder (fun a b => a < b) r.types
  types : ∀ name t, r.type? name = some t → t.WellFormed

theorem type?_register (wellFormed : r.WellFormed) (reg : Registration) (name : String) :
    (r.register reg).type? name =
      if name = reg.name then some (.adding reg (r.type? reg.name)) else r.type? name :=
  valueOf?_upsert ordersKeys_name wellFormed.inOrder

theorem WellFormed.register (wellFormed : r.WellFormed) (reg : Registration) : (r.register reg).WellFormed where
  inOrder := inOrder_upsert ordersKeys_name wellFormed.inOrder
  types name t found := by
    rw [type?_register wellFormed] at found
    split at found
    next =>
      cases found
      exact NodeType.wellFormed_adding (wellFormed.types reg.name) reg
    next => exact wellFormed.types name t found

theorem wellFormed_ofList (history : List Registration) : (ofList history).WellFormed := by
  have empty : ({} : Registry).WellFormed := ⟨.nil, nofun⟩
  rw [ofList]
  generalize ({} : Registry) = r at empty
  induction history generalizing r with
  | nil => exact empty
  | cons reg rest ih => exact ih (r.register reg) (empty.register reg)

/-- Registering a node changes what there is under its name and value type, and nothing else. -/
theorem node?_register (wellFormed : r.WellFormed) (reg : Registration) (name : String)
    (key : Option ValueType) :
    (r.register reg).node? name key =
      if reg.name = name ∧ reg.type = key then some reg.node else r.node? name key := by
  rw [node?, type?_register wellFormed]
  by_cases here : name = reg.name
  · subst here
    rw [if_pos rfl]
    exact (NodeType.node?_adding (wellFormed.types reg.name) reg key).trans (by simp [eq_comm, node?])
  · rw [if_neg here, if_neg fun both => here both.1.symm]
    rfl

/-- The node that a history registers last under a name, for a value type or as a plain one. -/
def lastNode? (history : List Registration) (name : String) (key : Option ValueType) : Option Node :=
  (history.reverse.find? fun reg => reg.name = name ∧ reg.type = key).map (·.node)

theorem lastNode?_append (before after : List Registration) (name : String) (key : Option ValueType) :
    lastNode? (before ++ after) name key = (lastNode? after name key).or (lastNode? before name key) := by
  rw [lastNode?, List.reverse_append, List.find?_append, Option.map_or]
  rfl

theorem lastNode?_cons (reg : Registration) (later : List Registration) (name : String)
    (key : Option ValueType) :
    lastNode? (reg :: later) name key =
      (lastNode? later name key).or (if reg.name = name ∧ reg.type = key then some reg.node else none) := by
  have single : lastNode? [reg] name key = if reg.name = name ∧ reg.type = key then some reg.node else none := by
    rw [lastNode?, List.reverse_singleton, List.find?_singleton]
    by_cases here : reg.name = name ∧ reg.type = key <;> simp [here]
  rw [← List.singleton_append, lastNode?_append, single]

/-- There is a last node exactly where something was registered. -/
theorem isSome_lastNode?_iff {history : List Registration} {name : String} {key : Option ValueType} :
    (lastNode? history name key).isSome = true ↔ ∃ reg ∈ history, reg.name = name ∧ reg.type = key := by
  simp [lastNode?, Option.isSome_map, List.find?_isSome]

/-- What a registry has is what was registered last. -/
theorem node?_ofList (history : List Registration) (name : String) (key : Option ValueType) :
    (ofList history).node? name key = lastNode? history name key := by
  induction history using List.reverseRecOn with
  | nil => rfl
  | append_singleton history reg ih =>
      have last : ofList (history ++ [reg]) = (ofList history).register reg := List.foldl_append
      rw [last, node?_register (wellFormed_ofList history), ih, lastNode?_append, lastNode?_cons]
      split <;> rfl

/-- A name is registered exactly if some node is registered under it. -/
theorem type?_eq_none_iff (wellFormed : r.WellFormed) : r.type? name = none ↔ ∀ key, r.node? name key = none := by
  refine ⟨fun unknown key => by rw [node?, unknown]; rfl, fun nothing => ?_⟩
  cases found : r.type? name with
  | none => rfl
  | some t =>
      obtain ⟨key, n, present⟩ := (wellFormed.types name t found).inhabited
      have absent := nothing key
      rw [node?, found, Option.bind_some, present] at absent
      cases absent

/-- A registry is known by its nodes. -/
theorem ext_node? (wellFormed : r.WellFormed) (wellFormed' : r'.WellFormed)
    (same : ∀ name key, r.node? name key = r'.node? name key) : r = r' := by
  have types : r.types = r'.types := by
    refine wellFormed.inOrder.ext ordersKeys_name wellFormed'.inOrder fun name => ?_
    have unknown : r.type? name = none ↔ r'.type? name = none := by
      simp only [type?_eq_none_iff wellFormed, type?_eq_none_iff wellFormed', same]
    change r.type? name = r'.type? name
    cases found : r.type? name with
    | none => rw [unknown.mp found]
    | some t =>
        cases found' : r'.type? name with
        | none => rw [unknown.mpr found'] at found; cases found
        | some t' =>
            congr 1
            refine NodeType.ext_node? (wellFormed.types name t found) (wellFormed'.types name t' found') fun key => ?_
            have same := same name key
            rwa [node?, node?, found, found'] at same
  cases r
  cases r'
  exact congrArg Registry.mk types

/-- In which order two nodes are registered makes no difference, unless one replaces the other. -/
theorem ofList_swap {a b : Registration} (differ : (a.name, a.type) ≠ (b.name, b.type))
    (before after : List Registration) :
    ofList (before ++ a :: b :: after) = ofList (before ++ b :: a :: after) := by
  refine ext_node? (wellFormed_ofList _) (wellFormed_ofList _) fun name key => ?_
  rw [node?_ofList, node?_ofList, lastNode?_append, lastNode?_append]
  simp only [lastNode?_cons, Option.or_assoc]
  congr 1
  by_cases first : a.name = name ∧ a.type = key
  · by_cases second : b.name = name ∧ b.type = key
    · exact absurd (by rw [first.1, first.2, second.1, second.2]) differ
    · rw [if_neg second, Option.none_or, Option.none_or]
  · rw [if_neg first, Option.none_or, Option.none_or]

end Registry

end FlowGraph
