import FlowGraph.Json.Basic

/-!
# Reading JSON

Reading is strict: one value with nothing but blanks around it, no comma after a last element, no
control character inside a string, no number with a leading zero. Depth of nesting has no limit.

A reader takes a list of characters and returns what it read together with what is left. Values nest,
so their reader carries a budget that shrinks at every element; twice the length of the text is always
enough, since what is read between two elements is never empty.
-/

namespace FlowGraph.Json

/-- The four blanks of JSON. -/
def isBlank (c : Char) : Bool :=
  c == ' ' || c == '\n' || c == '\t' || c == '\r'

def skipBlanks (cs : List Char) : List Char :=
  cs.dropWhile isBlank

/-- The value of a hexadecimal digit of either case. -/
def hexValue? (c : Char) : Option Nat :=
  if '0' ≤ c ∧ c ≤ '9' then some (c.toNat - 48)
  else if 'a' ≤ c ∧ c ≤ 'f' then some (c.toNat - 87)
  else if 'A' ≤ c ∧ c ≤ 'F' then some (c.toNat - 55)
  else none

/-- The number that four hexadecimal digits denote. -/
def hexNumber? (a b c d : Char) : Option Nat := do
  let a ← hexValue? a
  let b ← hexValue? b
  let c ← hexValue? c
  let d ← hexValue? d
  some (((a * 16 + b) * 16 + c) * 16 + d)

/-- The character that a one-letter escape stands for. -/
def escaped? : Char → Option Char
  | '"' => some '"'
  | '\\' => some '\\'
  | '/' => some '/'
  | 'b' => some '\x08'
  | 'f' => some '\x0c'
  | 'n' => some '\n'
  | 'r' => some '\r'
  | 't' => some '\t'
  | _ => none

/-- Reads a string whose opening quote has been taken off, as the numbers of its characters and of the
halves of surrogate pairs in it. -/
def readUnits : List Char → Option (List Nat × List Char)
  | '"' :: rest => some ([], rest)
  | '\\' :: 'u' :: a :: b :: c :: d :: rest => do
    let n ← hexNumber? a b c d
    let (units, rest) ← readUnits rest
    some (n :: units, rest)
  | '\\' :: e :: rest => do
    let c ← escaped? e
    let (units, rest) ← readUnits rest
    some (c.toNat :: units, rest)
  | c :: rest =>
    if c = '\\' ∨ c.toNat < 32 then none
    else do
      let (units, rest) ← readUnits rest
      some (c.toNat :: units, rest)
  | [] => none

def isHighHalf (n : Nat) : Bool :=
  0xD800 ≤ n && n < 0xDC00

def isLowHalf (n : Nat) : Bool :=
  0xDC00 ≤ n && n < 0xE000

/-- The characters of a string, unless a half of a pair stands alone in it. -/
def joinHalves : List Nat → Option (List Char)
  | [] => some []
  | [n] => if isHighHalf n || isLowHalf n then none else some [Char.ofNat n]
  | n :: m :: rest =>
    if isHighHalf n then
      if isLowHalf m then
        (joinHalves rest).map (Char.ofNat (0x10000 + (n - 0xD800) * 0x400 + (m - 0xDC00)) :: ·)
      else none
    else if isLowHalf n then none
    else (joinHalves (m :: rest)).map (Char.ofNat n :: ·)

/-- Reads a string whose opening quote has been taken off. -/
def readString (cs : List Char) : Option (Option String × List Char) := do
  let (units, rest) ← readUnits cs
  some ((joinHalves units).map String.ofList, rest)

/-- Reads one or more digits. -/
def readDigits (cs : List Char) : Option (List Char × List Char) :=
  let ds := cs.takeWhile Text.isDigit
  if ds.isEmpty then none else some (ds, cs.dropWhile Text.isDigit)

/-- Reads a fraction, if there is one. -/
def readFraction : List Char → Option (List Char × List Char)
  | '.' :: cs => do
    let (ds, cs) ← readDigits cs
    some ('.' :: ds, cs)
  | cs => some ([], cs)

/-- Reads an exponent, if there is one. -/
def readExponent : List Char → Option (List Char × List Char)
  | [] => some ([], [])
  | e :: cs =>
    if e = 'e' ∨ e = 'E' then
      match cs with
      | s :: cs' =>
        if s = '+' ∨ s = '-' then do
          let (ds, cs) ← readDigits cs'
          some (e :: s :: ds, cs)
        else do
          let (ds, cs) ← readDigits cs
          some (e :: ds, cs)
      | [] => none
    else some ([], e :: cs)

/-- Reads a number without its sign. -/
def readUnsigned (negative : Bool) (cs : List Char) : Option (Json × List Char) := do
  let (ds, cs) ← readDigits cs
  if ds.head? = some '0' ∧ 1 < ds.length then none
  else
    let (fraction, cs) ← readFraction cs
    let (exponent, cs) ← readExponent cs
    let n ← Text.natural? ds
    if fraction.isEmpty && exponent.isEmpty && !(negative && n == 0) then
      some (.integer (if negative then -(n : Int) else n), cs)
    else
      let sign := if negative then ['-'] else []
      some (.number (String.ofList (sign ++ ds ++ fraction ++ exponent)), cs)

def readNumber : List Char → Option (Json × List Char)
  | '-' :: cs => readUnsigned true cs
  | cs => readUnsigned false cs

mutual

/-- Reads a value. -/
def readValue : (budget : Nat) → List Char → Option (Json × List Char)
  | 0, _ => none
  | budget + 1, cs =>
    match skipBlanks cs with
    | 'n' :: 'u' :: 'l' :: 'l' :: rest => some (.null, rest)
    | 't' :: 'r' :: 'u' :: 'e' :: rest => some (.bool true, rest)
    | 'f' :: 'a' :: 'l' :: 's' :: 'e' :: rest => some (.bool false, rest)
    | '"' :: rest => (readString rest).map fun (text, rest) => (.string text, rest)
    | '[' :: rest =>
      match skipBlanks rest with
      | ']' :: rest => some (.array [], rest)
      | rest => (readItems budget rest).map fun (items, rest) => (.array items, rest)
    | '\x7b' :: rest =>
      match skipBlanks rest with
      | '\x7d' :: rest => some (.object [], rest)
      | rest => (readMembers budget rest).map fun (members, rest) => (.object members, rest)
    | rest => readNumber rest

/-- Reads one or more items and the bracket that closes them. -/
def readItems : (budget : Nat) → List Char → Option (List Json × List Char)
  | 0, _ => none
  | budget + 1, cs => do
    let (j, cs) ← readValue budget cs
    match skipBlanks cs with
    | ']' :: rest => some ([j], rest)
    | ',' :: rest => do
      let (items, rest) ← readItems budget rest
      some (j :: items, rest)
    | _ => none

/-- Reads one or more members and the brace that closes them. -/
def readMembers : (budget : Nat) → List Char → Option (List (Option String × Json) × List Char)
  | 0, _ => none
  | budget + 1, cs => do
    match skipBlanks cs with
    | '"' :: rest => do
      let (name, rest) ← readString rest
      match skipBlanks rest with
      | ':' :: rest => do
        let (j, rest) ← readValue budget rest
        match skipBlanks rest with
        | '\x7d' :: rest => some ([(name, j)], rest)
        | ',' :: rest => do
          let (members, rest) ← readMembers budget rest
          some ((name, j) :: members, rest)
        | _ => none
      | _ => none
    | _ => none

end

/-- The value that a text holds. -/
def ofText? (s : String) : Option Json := do
  let cs := s.toList
  let (j, rest) ← readValue (2 * cs.length + 2) cs
  if (skipBlanks rest).isEmpty then some j else none

end FlowGraph.Json
