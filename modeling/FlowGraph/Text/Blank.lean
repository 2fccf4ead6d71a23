import FlowGraph.Text.CodePoints

/-!
# Blank characters

The blanks are the characters with the Unicode property `White_Space`. Trimming takes them off both
ends of a text; a text of blanks only trims to nothing. Zero-width characters such as U+200B and
U+FEFF are not blanks, so they survive.
-/

namespace FlowGraph.Text

/-- The code points with the property `White_Space`. -/
def blanks : CodePoints :=
  ⟨[(0x9, 0xD), (0x20, 0x20), (0x85, 0x85), (0xA0, 0xA0), (0x1680, 0x1680), (0x2000, 0x200A),
    (0x2028, 0x2029), (0x202F, 0x202F), (0x205F, 0x205F), (0x3000, 0x3000)]⟩

def isBlank (c : Char) : Bool :=
  blanks.contains c

/-- Drops the blanks at the front. -/
def trimStart (cs : List Char) : List Char :=
  cs.dropWhile isBlank

/-- Drops the blanks at the end. -/
def trimEnd (cs : List Char) : List Char :=
  (cs.reverse.dropWhile isBlank).reverse

/-- Drops the blanks at both ends. -/
def trim (cs : List Char) : List Char :=
  trimEnd (trimStart cs)

/-- Whether a text holds nothing but blanks. -/
def isAllBlank (cs : List Char) : Bool :=
  cs.all isBlank

@[simp] theorem trimStart_nil : trimStart [] = [] := rfl

theorem trimStart_cons_of_blank {c : Char} {cs : List Char} (h : isBlank c = true) :
    trimStart (c :: cs) = trimStart cs := by
  simp [trimStart, h]

theorem trimStart_cons_of_not_blank {c : Char} {cs : List Char} (h : isBlank c = false) :
    trimStart (c :: cs) = c :: cs := by
  simp [trimStart, h]

end FlowGraph.Text
