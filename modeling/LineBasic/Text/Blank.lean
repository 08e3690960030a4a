/-!
# White space and trimming

Texts are trimmed of white space at three places: around a statement body before it is stored,
around a command, and around a number typed at a prompt. White space there is the Unicode property
`White_Space`, twenty-five characters in ten ranges. Between the tokens of a statement the rule is
another, narrower one, and belongs to the lexemes.

All functions work on lists of characters. `trim` removes a prefix and a suffix, so a trimmed text
is a contiguous piece of the text it came from.
-/

namespace LineBasic.Text

/-- The characters with the Unicode property `White_Space`. -/
def isBlank (c : Char) : Bool :=
  let n := c.toNat
  (0x9 ≤ n && n ≤ 0xD) || n == 0x20 || n == 0x85 || n == 0xA0 || n == 0x1680 ||
    (0x2000 ≤ n && n ≤ 0x200A) || n == 0x2028 || n == 0x2029 || n == 0x202F || n == 0x205F ||
    n == 0x3000

/-- Removes the longest suffix whose characters all satisfy `p`. -/
def dropEndWhile (p : Char → Bool) (text : List Char) : List Char :=
  (text.reverse.dropWhile p).reverse

/-- Removes white space from both ends. -/
def trim (text : List Char) : List Char := dropEndWhile isBlank (text.dropWhile isBlank)

/-- Removes every carriage return and line feed from the end. -/
def dropLineEnd (text : List Char) : List Char :=
  dropEndWhile (fun c => c = '\r' || c = '\n') text

end LineBasic.Text
