import FlowGraph.Text.Decimal

/-!
# JSON values

A whole number keeps its value, any other number the text it was written with. An escape can spell
half of a surrogate pair on its own; a string with such an escape is well-formed and yet has no text.
An object keeps its members as they were written, in order and with repetitions, because what a
repeated name means depends on who reads it.
-/

namespace FlowGraph

inductive Json where
  | null
  | bool (b : Bool)
  /-- A number written without fraction and exponent. -/
  | integer (i : Int)
  /-- Any other number, as it was written. -/
  | number (text : String)
  | string (text : Option String)
  | array (items : List Json)
  | object (members : List (Option String × Json))
deriving Inhabited

namespace Json

/-- A string with a text. -/
def text (s : String) : Json :=
  .string (some s)

def natural (n : Nat) : Json :=
  .integer n

/-- An object whose names are texts. -/
def ofMembers (members : List (String × Json)) : Json :=
  .object (members.map fun (name, j) => (some name, j))

/-- The first member of a name. -/
def member? (j : Json) (name : String) : Option Json :=
  match j with
  | .object members => members.lookup (some name)
  | _ => none

def bool? : Json → Option Bool
  | .bool b => some b
  | _ => none

def integer? : Json → Option Int
  | .integer i => some i
  | _ => none

/-- A whole number from zero to the largest of sixty-four bits. -/
def word? : Json → Option Nat
  | .integer (.ofNat n) => if n ≤ Text.maxWord then some n else none
  | _ => none

def text? : Json → Option String
  | .string s => s
  | _ => none

def items? : Json → Option (List Json)
  | .array items => some items
  | _ => none

/-- The values of a record's fields, in the order of the field names. A record is written as an object
or as an array. An object has to name each field at most once, and may name others; an array has to
hold exactly one value for each field. -/
def record? (fields : List String) : Json → Option (List (Option Json))
  | .object members =>
    if members.all (·.1.isSome) then
      fields.mapM fun field =>
        match members.filter (·.1 = some field) with
        | [] => some none
        | [(_, j)] => some (some j)
        | _ => none
    else none
  | .array items => if items.length = fields.length then some (items.map some) else none
  | _ => none

end Json

end FlowGraph
