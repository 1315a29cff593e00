import PolicyBundle.Text.Basic

/-!
# Blanks

The class of white space that the library trims: every code point with the Unicode property
`White_Space`. It contains the class of `Char.isWhitespace` and twenty characters more.
-/

namespace PolicyBundle.Text

/-- The code points with the property `White_Space`. -/
def isBlank (c : Char) : Bool :=
  let n := c.toNat
  (0x09 ≤ n && n ≤ 0x0D) || n == 0x20 || n == 0x85 || n == 0xA0 || n == 0x1680 ||
    (0x2000 ≤ n && n ≤ 0x200A) || n == 0x2028 || n == 0x2029 || n == 0x202F || n == 0x205F ||
    n == 0x3000

/-- The text without leading blanks. -/
def trimStart (text : List Char) : List Char :=
  text.dropWhile isBlank

/-- The text without leading and trailing blanks. -/
def trim (text : List Char) : List Char :=
  dropEnds isBlank text

/-- Whether a text holds nothing but blanks. -/
def blank (text : List Char) : Bool :=
  text.all isBlank

end PolicyBundle.Text
