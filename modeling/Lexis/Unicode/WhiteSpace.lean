import Lexis.Unicode.Ranges

/-!
The property White_Space of Unicode 17.0, and text without it at either end.
-/

namespace Lexis.Unicode

/-- Code points with the property, the next-line control and the wide spaces among them. -/
def whiteSpace : Ranges :=
  [(0x9,0xD),(0x20,0x20),(0x85,0x85),(0xA0,0xA0),(0x1680,0x1680),(0x2000,0x200A),(0x2028,0x2029),
   (0x202F,0x202F),(0x205F,0x205F),(0x3000,0x3000)]

def isWhiteSpace (c : Char) : Bool := whiteSpace.holds c.toNat

/-- Drops the white space before the first and after the last other character. -/
def trim (cs : List Char) : List Char :=
  ((cs.dropWhile isWhiteSpace).reverse.dropWhile isWhiteSpace).reverse

end Lexis.Unicode
