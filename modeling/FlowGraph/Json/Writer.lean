import FlowGraph.Json.Basic
import FlowGraph.Text.Quoted

/-!
# Writing JSON

Two layouts: without any blanks, and with every element on a line of its own, indented by two spaces a
level. In both, an empty array or object closes at once. Strings escape the quote, the backslash and
the controls below U+0020, those with a short escape by it, and nothing else.
-/

namespace FlowGraph.Json

open Text (hexDigit)

/-- One character of a string. -/
def writeChar (c : Char) : List Char :=
  match c with
  | '"' => ['\\', '"']
  | '\\' => ['\\', '\\']
  | '\x08' => ['\\', 'b']
  | '\x0c' => ['\\', 'f']
  | '\n' => ['\\', 'n']
  | '\r' => ['\\', 'r']
  | '\t' => ['\\', 't']
  | c =>
    if c.toNat < 32 then ['\\', 'u', '0', '0', hexDigit (c.toNat / 16), hexDigit (c.toNat % 16)]
    else [c]

/-- A string. One that has no text is written as some half of a surrogate pair. -/
def writeString : Option String → List Char
  | some s => '"' :: s.toList.flatMap writeChar ++ ['"']
  | none => ['"', '\\', 'u', 'd', '8', '0', '0', '"']

/-- How elements are set apart. -/
structure Layout where
  /-- What stands before an element at some level of nesting, and before the bracket that closes it. -/
  lineBreak : (level : Nat) → List Char
  /-- What stands between a name and its value. -/
  colon : List Char

namespace Layout

/-- No blanks at all. -/
def compact : Layout :=
  ⟨fun _ => [], [':']⟩

/-- Every element on a line of its own. -/
def lines : Layout :=
  ⟨fun level => '\n' :: List.replicate (2 * level) ' ', [':', ' ']⟩

end Layout

mutual

/-- A value at a level of nesting. -/
def write (l : Layout) (level : Nat) : Json → List Char
  | null => ['n', 'u', 'l', 'l']
  | bool true => ['t', 'r', 'u', 'e']
  | bool false => ['f', 'a', 'l', 's', 'e']
  | integer i => Text.signedDigits i
  | number text => text.toList
  | string text => writeString text
  | array [] => ['[', ']']
  | array (j :: items) =>
    '[' :: l.lineBreak (level + 1) ++ write l (level + 1) j ++ writeItems l level items
  | object [] => ['\x7b', '\x7d']
  | object ((name, j) :: members) =>
    '\x7b' :: l.lineBreak (level + 1) ++ writeString name ++ l.colon ++ write l (level + 1) j ++
      writeMembers l level members

/-- What follows the first item of an array. -/
def writeItems (l : Layout) (level : Nat) : List Json → List Char
  | [] => l.lineBreak level ++ [']']
  | j :: items =>
    ',' :: l.lineBreak (level + 1) ++ write l (level + 1) j ++ writeItems l level items

/-- What follows the first member of an object. -/
def writeMembers (l : Layout) (level : Nat) : List (Option String × Json) → List Char
  | [] => l.lineBreak level ++ ['\x7d']
  | (name, j) :: members =>
    ',' :: l.lineBreak (level + 1) ++ writeString name ++ l.colon ++ write l (level + 1) j ++
      writeMembers l level members

end

/-- The text without blanks. -/
def compact (j : Json) : String :=
  String.ofList (j.write .compact 0)

/-- The text with every element on a line of its own. -/
def lines (j : Json) : String :=
  String.ofList (j.write .lines 0)

end FlowGraph.Json
