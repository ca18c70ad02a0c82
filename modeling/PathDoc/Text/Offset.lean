/-!
# Byte offsets

Places in a text are counted in bytes of its UTF-8 encoding. A reader that stopped with `rest` still
unread stopped at `offset whole rest`.
-/

set_option autoImplicit false

namespace PathDoc.Text

/-- The number of bytes of a text in UTF-8. -/
def byteSize : List Char → Nat
  | [] => 0
  | c :: rest => c.utf8Size + byteSize rest

/-- The place at which a reader of `whole` stands when `rest` is still unread. -/
def offset (whole rest : List Char) : Nat :=
  byteSize whole - byteSize rest

/-- The size of a concatenation. -/
theorem byteSize_append (a b : List Char) : byteSize (a ++ b) = byteSize a + byteSize b := by
  induction a with
  | nil => simp [byteSize]
  | cons c a ih => simp [byteSize, ih, Nat.add_assoc]

/-- **The offset is the size of what was read.** -/
theorem offset_append (read rest : List Char) : offset (read ++ rest) rest = byteSize read := by
  simp [offset, byteSize_append]

end PathDoc.Text
