/-!
# Cells

A value in the memory of a compiled expression is a cell of twelve bytes: a tag, then eight bytes
of content. A number fills them; a boolean has one word, `0` or `1`, and padding; a pair has the
addresses of its components. Address `0` holds no cell.
-/

namespace Twofold.Cell

/-- The size of a cell in bytes. -/
def size : Nat := 12

/-- The tag of a number. -/
def number : UInt32 := 1

/-- The tag of a boolean. -/
def boolean : UInt32 := 2

/-- The tag of a pair. -/
def pair : UInt32 := 3

/-- Where the content, and with it the first word of the content, begins. -/
def first : Nat := 4

/-- Where the second word of the content begins. -/
def second : Nat := 8

/-- The first cell begins at a multiple of this, behind the static data. -/
def align : Nat := 8

end Twofold.Cell
