import FlowGraph.Catalogue.Basic

/-!
# Registries

A registry knows node types by name. A plain type has one node to copy; a generic type has one for
each value type of its filter. Both levels are lists kept in increasing order of their keys, names by
code point and value types by rank, so that listing a registry does not depend on the order in which
it was filled. Registering under a name and value type that are taken replaces what was there.
-/

namespace FlowGraph

/-- Replaces the entry of a key, or inserts one where the order wants it. -/
def upsert {κ α : Type} [DecidableEq κ] (before : κ → κ → Bool) (key : κ) (value : Option α → α) :
    List (κ × α) → List (κ × α)
  | [] => [(key, value none)]
  | (k, a) :: rest =>
    if k = key then (k, value (some a)) :: rest
    else if before key k then (key, value none) :: (k, a) :: rest
    else (k, a) :: upsert before key value rest

/-- What is registered under one name. -/
structure NodeType where
  plain : Option Node := none
  instances : List (ValueType × Node) := []

namespace NodeType

def isGeneric (t : NodeType) : Bool :=
  !t.instances.isEmpty

/-- The value types that the node type is instantiated for, in order. -/
def filter (t : NodeType) : List ValueType :=
  t.instances.map Prod.fst

/-- The node registered for a value type. -/
def instance? (t : NodeType) (type : ValueType) : Option Node :=
  (t.instances.find? (·.1 = type)).map Prod.snd

/-- The node that describes the type: the plain one, else the first of its filter. -/
def representative? (t : NodeType) : Option Node :=
  match t.plain with
  | some n => some n
  | none => t.instances.head?.map Prod.snd

def setPlain (t : NodeType) (n : Node) : NodeType :=
  { t with plain := some n }

def setInstance (t : NodeType) (type : ValueType) (n : Node) : NodeType :=
  { t with instances := upsert (fun a b => a.rank < b.rank) type (fun _ => n) t.instances }

end NodeType

/-- A node type as a catalogue lists it. -/
structure CatalogueEntry where
  name : String
  category : String
  filter : List ValueType
  descriptor : Descriptor

structure Registry where
  types : List (String × NodeType) := []

/-- One addition to a registry: a node for a name, or for a name and a value type. -/
structure Registration where
  name : String
  type : Option ValueType
  node : Node

namespace Registry

def type? (r : Registry) (name : String) : Option NodeType :=
  (r.types.find? (·.1 = name)).map Prod.snd

def contains (r : Registry) (name : String) : Bool :=
  (r.type? name).isSome

/-- The registered names, in order. -/
def names (r : Registry) : List String :=
  r.types.map Prod.fst

/-- The value types that a name is instantiated for, if it is registered. -/
def filter? (r : Registry) (name : String) : Option (List ValueType) :=
  (r.type? name).map (·.filter)

def register (r : Registry) (reg : Registration) : Registry where
  types :=
    upsert (fun a b => a < b) reg.name
      (fun t? =>
        let t := t?.getD {}
        match reg.type with
        | none => t.setPlain reg.node
        | some type => t.setInstance type reg.node)
      r.types

/-- The registry that a history of registrations leaves. -/
def ofList (history : List Registration) : Registry :=
  history.foldl register {}

/-- The node of a name. A generic type needs a value type of its filter, a plain one takes none. -/
def create (r : Registry) (name : String) (arg : Option ValueType) : Except BuildError Node :=
  match r.type? name with
  | none => .error (.unknownNodeType name)
  | some t =>
    match t.isGeneric, arg with
    | false, none =>
      match t.plain with
      | some n => .ok n
      | none => .error (.unknownNodeType name)
    | false, some _ => .error (.unexpectedTypeArgument name)
    | true, none => .error (.missingTypeArgument name)
    | true, some type =>
      match t.instance? type with
      | some n => .ok n
      | none => .error (.typeNotInFilter name type)

/-- Every registered type with its description, in order of names. -/
def catalogue (r : Registry) : List CatalogueEntry :=
  r.types.filterMap fun (name, t) =>
    t.representative?.map fun n =>
      { name, category := n.descriptor.category, filter := t.filter, descriptor := n.descriptor }

/-- Registers a node type of the catalogue for some value types. -/
def generic {α : Type} (make : α → CatalogueNode) (types : List (α × ValueType)) : List Registration :=
  types.map fun (a, t) => ⟨(make a).title, some t, (make a).node⟩

def plain (n : CatalogueNode) : Registration :=
  ⟨n.title, none, n.node⟩

/-- Every summable type with its value type. -/
def summable : List (Summable × ValueType) :=
  Summable.all.map fun t => (t, t.valueType)

/-- Every value type with itself. -/
def anyType : List (ValueType × ValueType) :=
  ValueType.all.map fun t => (t, t)

/-- The registrations of the whole catalogue. -/
def catalogueHistory : List Registration :=
  generic (fun t => .constant (.zero t)) anyType ++
  generic .add summable ++
  generic .sum summable ++
  generic (.log · .own) anyType ++
  generic .onChanged anyType ++
  [.onTrigger, .branch, .statefulBranch, .branchWithState, .fireOnTrue, .fireOnInterval,
    .fireWhileTrue, .forLoop, .counter, .delay, .parseInt].map plain

/-- The registry of the whole catalogue. -/
def standard : Registry :=
  .ofList catalogueHistory

end Registry

end FlowGraph
