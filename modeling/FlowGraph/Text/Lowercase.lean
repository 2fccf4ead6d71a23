import FlowGraph.Text.CaseTable

/-!
# Lowercase texts

Full Unicode lowercase. Every character has a lowercase form of its own except two: U+0130 becomes an
`i` followed by a combining dot, and the capital sigma depends on its place. At the end of a word it
becomes the final sigma: some cased letter stands before it and none after it, where characters that
are ignored for case are passed over on both sides.
-/

namespace FlowGraph.Text

/-- The lowercase form of a single character, itself if it has no other. -/
def lowerChar (c : Char) : Char :=
  match lowercaseRuns.find? (·.contains c) with
  | some run => Char.ofNat ((c.toNat : Int) + run.shift).toNat
  | none => c

/-- Whether the first character that counts for case is a cased one. -/
def startsCased (cs : List Char) : Bool :=
  match cs.dropWhile caseIgnorable.contains with
  | c :: _ => cased.contains c
  | [] => false

/-- The lowercase text of `cs`, where `before` holds the characters already passed, last one first. -/
def lowerFrom (before : List Char) : List Char → List Char
  | [] => []
  | c :: cs =>
    let lowered :=
      if c = 'Σ' then [if startsCased before && !startsCased cs then 'ς' else 'σ']
      else if c = 'İ' then ['i', '\u0307']
      else if c.toNat < 128 then [c.toLower]
      else [lowerChar c]
    lowered ++ lowerFrom (c :: before) cs

/-- The lowercase form of a text. -/
def lowercase (cs : List Char) : List Char :=
  lowerFrom [] cs

end FlowGraph.Text
