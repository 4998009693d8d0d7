/-
  Crosswalk.Text.Position
  ──────────────────────────────────────
  **LINES AND COLUMNS OF BYTE OFFSETS.**

  Messages about a text name a place in its UTF-8 form.  A reader does not
  count while it reads: it keeps the text that is still ahead, and the offset
  follows from the number of bytes ahead (`offsetOf`).  `lineColumn` turns an
  offset into a line and a column that count from one; an offset beyond the
  end stands for the end.
-/
import Crosswalk.Text.Basic

namespace Crosswalk.Text

/-- The number of bytes of a text in UTF-8. -/
def byteSize (s : Text) : Nat :=
  (s.map Char.utf8Size).foldl (· + ·) 0

/-- The bytes of a text in UTF-8. -/
def bytes (s : Text) : List UInt8 :=
  s.flatMap String.utf8EncodeChar

/-- The offset at which `ahead` starts, when it is the end of `whole`. -/
def offsetOf (whole ahead : Text) : Nat :=
  byteSize whole - byteSize ahead

/-- The byte that ends a line. -/
def newline : UInt8 := 10

/-- The bytes after the last newline. -/
def lastLine (bs : List UInt8) : List UInt8 :=
  (bs.reverse.takeWhile (· != newline)).reverse

/-- Line and column of a byte offset, both from one. -/
def lineColumn (bs : List UInt8) (offset : Nat) : Nat × Nat :=
  let before := bs.take offset
  (before.count newline + 1, (lastLine before).length + 1)

end Crosswalk.Text
