/-!
# Texts as bytes

Files hold bytes. A text is kept in them as its UTF-8 encoding, and bytes are read back as a text only
if they are such an encoding.
-/

namespace FlowGraph.Text

/-- The bytes of a text. -/
def encode (s : String) : List UInt8 :=
  s.toUTF8.data.toList

/-- The text that bytes encode. -/
def decode? (bytes : List UInt8) : Option String :=
  String.fromUTF8? ⟨bytes.toArray⟩

/-- What is written is read back. -/
theorem decode?_encode (s : String) : decode? (encode s) = some s := by
  have h : (⟨(encode s).toArray⟩ : ByteArray) = s.toUTF8 := by simp [encode]
  unfold decode? String.fromUTF8?
  rw [h]
  exact dif_pos s.isValidUTF8

end FlowGraph.Text
