/-!
# Blank — characters that separate

Two sets are in use. `isWhiteSpace` is the white space that may stand around a number.
`isBlank` adds the four information separators; it decides which lines are empty, what is cut from
both ends of a line and what an expression may be spread with.
-/

namespace Reckoner.Text

/-- The white space characters. -/
def isWhiteSpace (c : Char) : Bool :=
  let n := c.toNat
  (0x09 ≤ n && n ≤ 0x0D) || n == 0x20 || n == 0x85 || n == 0xA0 || n == 0x1680
    || (0x2000 ≤ n && n ≤ 0x200A) || n == 0x2028 || n == 0x2029 || n == 0x202F || n == 0x205F
    || n == 0x3000

/-- White space, and the information separators U+001C to U+001F. -/
def isBlank (c : Char) : Bool := isWhiteSpace c || (0x1C ≤ c.toNat && c.toNat ≤ 0x1F)

/-- The characters without those at both ends that satisfy `p`. -/
def trimBy (p : Char → Bool) (cs : List Char) : List Char :=
  ((cs.dropWhile p).reverse.dropWhile p).reverse

/-- The characters without the blanks at both ends. -/
def trim (cs : List Char) : List Char := trimBy isBlank cs

def isBlankText (s : String) : Bool := s.toList.all isBlank

end Reckoner.Text
