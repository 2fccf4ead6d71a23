import FlowGraph.Text.Lowercase
import FlowGraph.Text.Blank
import FlowGraph.Text.Decimal
import FlowGraph.Text.Quoted
import FlowGraph.Value.Single

/-!
# Values and their types

Four types of value travel along value connections: truth values, 32-bit integers whose arithmetic
wraps, single-precision numbers, and texts. A `Value` carries its type with it; `as?` looks at a value
as one of a given type and fails for any other, and every place that reads a value says which type it
expects.
-/

namespace FlowGraph

inductive ValueType where
  | bool
  | int
  | float
  | text
deriving DecidableEq, Repr, Inhabited

namespace ValueType

/-- All types, in their order. -/
def all : List ValueType :=
  [.bool, .int, .float, .text]

/-- The place of a type among all of them; types are ordered by it. -/
def rank : ValueType → Nat
  | .bool => 0
  | .int => 1
  | .float => 2
  | .text => 3

/-- The name a type has in a type filter. -/
def name : ValueType → String
  | .bool => "bool"
  | .int => "int"
  | .float => "float"
  | .text => "string"

/-- The name a type has in descriptors and in messages about mismatches. -/
def label : ValueType → String
  | .bool => "bool"
  | .int => "i32"
  | .float => "f32"
  | .text => "alloc::string::String"

/-- The type with exactly this name. -/
def ofName? (s : String) : Option ValueType :=
  all.find? (·.name == s)

/-- Reads a type's name or one of its short forms. Surrounding blanks and letter case do not matter;
a text that names no type is returned as it was compared, trimmed and in lowercase. -/
def parse (s : String) : Except String ValueType :=
  match String.ofList (Text.lowercase (Text.trim s.toList)) with
  | "bool" | "boolean" => .ok .bool
  | "int" | "i32" => .ok .int
  | "float" | "f32" => .ok .float
  | "string" | "str" => .ok .text
  | other => .error other

/-- What to say of a text that names no type. -/
def unknownMessage (compared : String) : String :=
  s!"unknown type tag '{compared}'"

/-- The values of a type, without their tag. -/
abbrev Carrier : ValueType → Type
  | .bool => Bool
  | .int => Int32
  | .float => Single
  | .text => String

/-- The value of an input that nothing is connected to, unless its declaration says otherwise. -/
def zero : (t : ValueType) → t.Carrier
  | .bool => false
  | .int => 0
  | .float => .zero
  | .text => ""

/-- Whether two values of one type count as unchanged. Numbers of type `float` compare by the rules of
their standard. -/
def equal : (t : ValueType) → t.Carrier → t.Carrier → Bool
  | .bool, a, b => a == b
  | .int, a, b => a == b
  | .float, a, b => a.equal b
  | .text, a, b => a == b

/-- How a value of the type is shown to a developer. -/
def shown : (t : ValueType) → t.Carrier → String
  | .bool, b => if b then "true" else "false"
  | .int, n => Text.signedDecimal n.toInt
  | .float, x => x.text
  | .text, s => Text.quoted s

theorem rank_injective {s t : ValueType} (h : s.rank = t.rank) : s = t := by
  cases s <;> cases t <;> first | rfl | cases h

theorem mem_all (t : ValueType) : t ∈ all := by
  cases t <;> decide

end ValueType

inductive Value where
  | bool (b : Bool)
  | int (n : Int32)
  | float (x : Single)
  | text (s : String)
deriving DecidableEq, Inhabited

namespace Value

def type : Value → ValueType
  | .bool _ => .bool
  | .int _ => .int
  | .float _ => .float
  | .text _ => .text

/-- Tags a value with its type. -/
def of : (t : ValueType) → t.Carrier → Value
  | .bool, b => .bool b
  | .int, n => .int n
  | .float, x => .float x
  | .text, s => .text s

/-- The value without its tag. -/
def carrier : (v : Value) → v.type.Carrier
  | .bool b => b
  | .int n => n
  | .float x => x
  | .text s => s

/-- The value as one of the given type, if it is one. -/
def as? : (t : ValueType) → Value → Option t.Carrier
  | .bool, .bool b => some b
  | .int, .int n => some n
  | .float, .float x => some x
  | .text, .text s => some s
  | _, _ => none

/-- The value that stands for "nothing yet" in a type. -/
def zero (t : ValueType) : Value :=
  .of t t.zero

/-- How a value is shown to a developer. -/
def shown : Value → String
  | .bool b => ValueType.bool.shown b
  | .int n => ValueType.int.shown n
  | .float x => ValueType.float.shown x
  | .text s => ValueType.text.shown s

/-- Whether two values are of the given type and count as unchanged. Values of any other type never
do. -/
def unchanged (t : ValueType) (a b : Value) : Bool :=
  match a.as? t, b.as? t with
  | some a, some b => t.equal a b
  | _, _ => false

@[simp] theorem type_of (t : ValueType) (c : t.Carrier) : (Value.of t c).type = t := by
  cases t <;> rfl

@[simp] theorem of_carrier (v : Value) : Value.of v.type v.carrier = v := by
  cases v <;> rfl

@[simp] theorem as?_of (t : ValueType) (c : t.Carrier) : (Value.of t c).as? t = some c := by
  cases t <;> rfl

theorem as?_eq_some_iff {t : ValueType} {v : Value} {c : t.Carrier} :
    v.as? t = some c ↔ v = .of t c := by
  cases t <;> cases v <;> simp [as?, of]

/-- A value can be seen as one of a type exactly when it has that type. -/
theorem isSome_as?_iff {t : ValueType} {v : Value} : (v.as? t).isSome = true ↔ v.type = t := by
  cases t <;> cases v <;> simp [as?, type]

end Value

/-- The types whose values can be added up. -/
inductive Summable where
  | int
  | float
  | text
deriving DecidableEq, Repr, Inhabited

namespace Summable

def all : List Summable :=
  [.int, .float, .text]

abbrev valueType : Summable → ValueType
  | .int => .int
  | .float => .float
  | .text => .text

/-- Integers wrap, numbers round, texts are joined. -/
def add : (t : Summable) → t.valueType.Carrier → t.valueType.Carrier → t.valueType.Carrier
  | .int, a, b => (a : Int32) + b
  | .float, a, b => Single.add a b
  | .text, a, b => (a : String) ++ b

/-- The values added up from left to right, starting from the type's zero. -/
def sum (t : Summable) (values : List t.valueType.Carrier) : t.valueType.Carrier :=
  values.foldl t.add t.valueType.zero

end Summable

end FlowGraph
