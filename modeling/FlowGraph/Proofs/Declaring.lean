import FlowGraph.Descriptor
import FlowGraph.Value.Datum

/-!
# Ports stay where they were declared

Each port that is declared goes to the end of the list it joins, and the place it is told is the length that
the list had until then. Whatever is declared later only adds to the ends of the lists. The place therefore
keeps designating that port, and a name leads to it unless an earlier port of the same list has the name too.
-/

namespace FlowGraph

/-- The three lists of ports in a descriptor. -/
inductive PortList where
  | inputs
  | outputs
  | flows
deriving DecidableEq

/-- What is to be seen of an input. Reactive inputs come with a comparison of their values. -/
structure InputEntry where
  name : String
  type : ValueType
  isList : Bool := false
  isRequired : Bool := false
  isReactive : Bool := false
  equality? : Option (Value → Value → Bool) := none
  resting : Datum := .value (.zero type)

/-- What is to be seen of a port. -/
inductive PortEntry where
  | input (i : InputEntry)
  | output (name : String) (type : ValueType) (resting : Value)
  | flow (name : String) (isLoop : Bool)

namespace PortEntry

def name : PortEntry → String
  | .input i => i.name
  | .output name _ _ => name
  | .flow name _ => name

/-- The list that the port is in. -/
def list : PortEntry → PortList
  | .input _ => .inputs
  | .output .. => .outputs
  | .flow .. => .flows

end PortEntry

def Input.entry (i : Input) : InputEntry where
  name := i.name
  type := i.type
  isList := i.isList
  isRequired := i.isRequired
  isReactive := i.isReactive
  equality? := if i.isReactive then some (Value.unchanged i.type) else none
  resting := i.resting?.elim (.list []) .value

/-- The port that a declaration asks for, if it asks for one. -/
def Declaration.entry? : Declaration → Option PortEntry
  | .flowInput | .collapsed => none
  | .input name type => some (.input { name, type })
  | .defaulted name type resting => some (.input { name, type, resting := .value (.of type resting) })
  | .required name type => some (.input { name, type, isRequired := true })
  | .reactive name type =>
    some (.input { name, type, isReactive := true, equality? := some (Value.unchanged type) })
  | .list name type => some (.input { name, type, isList := true, resting := .list [] })
  | .output name type => some (.output name type (.zero type))
  | .continuation name => some (.flow name false)
  | .call name => some (.flow name true)

namespace Descriptor

/-- The ports in one of the lists. -/
def entries (d : Descriptor) : PortList → List PortEntry
  | .inputs => d.inputs.map fun i => .input i.entry
  | .outputs => d.outputs.map fun o => .output o.name o.type o.resting
  | .flows => d.flows.map fun f => .flow f.name f.isLoop

/-- The place of the first port with a name in one of the lists. -/
def index? (d : Descriptor) : PortList → String → Option Nat
  | .inputs => d.inputIndex?
  | .outputs => d.outputIndex?
  | .flows => d.flowIndex?

theorem index?_eq_findIdx? (d : Descriptor) (list : PortList) (name : String) :
    d.index? list name = (d.entries list).findIdx? (·.name == name) := by
  cases list <;> rw [entries, List.findIdx?_map] <;> rfl

/-- A declaration adds its port to the end of the list that it belongs to. -/
theorem entries_declare (d : Descriptor) (decl : Declaration) (list : PortList) :
    (d.declare decl).1.entries list = d.entries list ++ decl.entry?.toList.filter (·.list = list) := by
  cases decl <;> cases list <;>
    simp [declare, addInput, addOutput, addFlow, entries, Declaration.entry?, Input.entry, PortEntry.list,
      Input.isList, Input.isRequired, Input.isReactive, Input.resting?, Output.resting, Value.zero]

/-- The place that a declaration is told is the length of its list. -/
theorem place_declare (d : Descriptor) (decl : Declaration) :
    (d.declare decl).2 = decl.entry?.map fun e => (d.entries e.list).length := by
  cases decl <;>
    simp [declare, addInput, addOutput, addFlow, entries, Declaration.entry?, PortEntry.list]

/-- The lists hold the declared ports in the order of their declaration, and nothing else. -/
theorem entries_declareAll (d : Descriptor) (decls : List Declaration) (list : PortList) :
    (d.declareAll decls).1.entries list =
      d.entries list ++ (decls.filterMap Declaration.entry?).filter (·.list = list) := by
  induction decls generalizing d with
  | nil => simp [declareAll]
  | cons decl decls ih =>
      have asked : (decl :: decls).filterMap Declaration.entry? =
          decl.entry?.toList ++ decls.filterMap Declaration.entry? := by
        rw [List.filterMap_cons]
        cases decl.entry? <;> rfl
      rw [declareAll, ih, entries_declare, List.append_assoc, ← List.filter_append, ← asked]

/-- Declarations that follow others are told what they are told by the descriptor that those have made. -/
theorem declareAll_append (d : Descriptor) (before after : List Declaration) :
    d.declareAll (before ++ after) =
      (((d.declareAll before).1.declareAll after).1,
        (d.declareAll before).2 ++ ((d.declareAll before).1.declareAll after).2) := by
  induction before generalizing d with
  | nil => rfl
  | cons decl before ih => simp [declareAll, ih]

theorem length_declareAll (d : Descriptor) (decls : List Declaration) :
    (d.declareAll decls).2.length = decls.length := by
  induction decls generalizing d with
  | nil => rfl
  | cons decl decls ih => simp [declareAll, ih]

end Descriptor

/-- Looking an entry's name up finds the entry itself unless an earlier one has the name too. -/
theorem findIdx?_name_eq_length {front later : List PortEntry} {e : PortEntry} :
    (front ++ e :: later).findIdx? (·.name == e.name) = some front.length ↔
      ∀ earlier ∈ front, earlier.name ≠ e.name := by
  have here : (e :: later).findIdx? (·.name == e.name) = some 0 := by simp [List.findIdx?_cons]
  rw [List.findIdx?_append, here, Option.map_some, Nat.zero_add]
  cases first : front.findIdx? (·.name == e.name) with
  | none =>
      have others := List.findIdx?_eq_none_iff.mp first
      simpa using others
  | some i =>
      obtain ⟨within, same, _⟩ := List.findIdx?_eq_some_iff_getElem.mp first
      constructor
      · intro places
        exact absurd within (by rw [Option.some.inj places]; exact Nat.lt_irrefl _)
      · intro others
        exact absurd (eq_of_beq same) (others _ (List.getElem_mem within))

namespace Descriptor

/-- What a place that was told to a declaration is good for, in a descriptor with more ports than those that
had been declared before. -/
structure Designates (d : Descriptor) (before : List Declaration) (e : PortEntry) (place : Nat) : Prop where
  entry : (d.entries e.list)[place]? = some e
  earlier : place = ((before.filterMap Declaration.entry?).filter (·.list = e.list)).length
  index : d.index? e.list e.name = some place ↔
    ∀ earlier ∈ before.filterMap Declaration.entry?, earlier.list = e.list → earlier.name ≠ e.name

/-- What a fresh descriptor tells a declaration, after those before it. -/
def told (name category : String) (before : List Declaration) (decl : Declaration) : Option Nat :=
  ((({ name, category } : Descriptor).declareAll before).1.declare decl).2

theorem entries_ofDeclarations (name category : String) (decls : List Declaration) (list : PortList) :
    (ofDeclarations name category decls).entries list =
      (decls.filterMap Declaration.entry?).filter (·.list = list) := by
  have none : ({ name, category } : Descriptor).entries list = [] := by cases list <;> rfl
  rw [ofDeclarations, entries_declareAll, none, List.nil_append]

/-- A declaration that asks for a port is told how many ports its list has. -/
theorem told_eq (name category : String) (before : List Declaration) (decl : Declaration) :
    told name category before decl = decl.entry?.map fun e =>
      ((before.filterMap Declaration.entry?).filter (·.list = e.list)).length := by
  rw [told, place_declare]
  congr 1
  funext e
  exact congrArg List.length (entries_ofDeclarations name category before e.list)

/-- The port that a declaration asks for stands behind those that were declared before it, and it stays there
whatever is declared later. -/
theorem designates_ofDeclarations (name category : String) (before after : List Declaration)
    {decl : Declaration} {e : PortEntry} (asks : decl.entry? = some e) :
    (ofDeclarations name category (before ++ decl :: after)).Designates before e
      ((before.filterMap Declaration.entry?).filter (·.list = e.list)).length := by
  have entries : (ofDeclarations name category (before ++ decl :: after)).entries e.list =
      (before.filterMap Declaration.entry?).filter (·.list = e.list) ++
        e :: (after.filterMap Declaration.entry?).filter (·.list = e.list) := by
    rw [entries_ofDeclarations, List.filterMap_append, List.filterMap_cons_some asks, List.filter_append,
      List.filter_cons_of_pos (by simp)]
  refine ⟨?_, rfl, ?_⟩
  · rw [entries, List.getElem?_append_right (Nat.le_refl _), Nat.sub_self, List.getElem?_cons_zero]
  · rw [index?_eq_findIdx?, entries, findIdx?_name_eq_length]
    simp [and_imp]

/-- Whatever ports are declared, and in whatever order, the lists hold those and nothing else. A declaration
is told the same place whatever follows it, and none if it declares no port. In the descriptor that all of them
make, the place designates the port that this declaration asked for. Its name leads to it if and only if no
port that was declared before in the same list has that name. -/
theorem places_designate (name category : String) (before after : List Declaration) (decl : Declaration) :
    let built := ofDeclarations name category (before ++ decl :: after)
    (∀ list, built.entries list =
      ((before ++ decl :: after).filterMap Declaration.entry?).filter (·.list = list)) ∧
    (({ name, category } : Descriptor).declareAll (before ++ decl :: after)).2[before.length]? =
      some (told name category before decl) ∧
    match decl.entry? with
    | none => told name category before decl = none
    | some e => ∃ place, told name category before decl = some place ∧ built.Designates before e place := by
  refine ⟨entries_ofDeclarations _ _ _, ?_, ?_⟩
  · rw [declareAll_append, List.getElem?_append_right (Nat.le_of_eq (length_declareAll ..)),
      length_declareAll, Nat.sub_self]
    rfl
  · have place := told_eq name category before decl
    cases asks : decl.entry? with
    | none => rw [asks] at place; exact place
    | some e =>
        rw [asks] at place
        exact ⟨_, place, designates_ofDeclarations name category before after asks⟩

/-- A list input takes the second place although the first input has its name, which leads to the first. -/
example : told "Sum" "Math" [.input "Values" .int, .output "Result" .int] (.list "Values" .int) = some 1 ∧
    (ofDeclarations "Sum" "Math" [.input "Values" .int, .output "Result" .int, .list "Values" .int]).inputIndex?
      "Values" = some 0 := by
  decide

end Descriptor

end FlowGraph
