/-!
# Blank text

White space in the sense of the Unicode property `White_Space`, trimming, and the test for a text
that holds nothing else.  Identifiers that are blank count as absent when a document is read, and
the components of a tracing header are trimmed.

## Main definitions

* `Text.isBlankChar` — the 25 code points of `White_Space`
* `Text.trim` — without the white space at both ends
* `Text.isBlank` — nothing left after trimming
-/

namespace CausalTrace.Text

/-- Whether a character has the Unicode property `White_Space`. -/
def isBlankChar (c : Char) : Bool :=
  let n := c.toNat
  (0x9 ≤ n && n ≤ 0xD) || n == 0x20 || n == 0x85 || n == 0xA0 || n == 0x1680
    || (0x2000 ≤ n && n ≤ 0x200A) || n == 0x2028 || n == 0x2029 || n == 0x202F || n == 0x205F
    || n == 0x3000

/-- Characters without the white space at their start. -/
def trimStart (s : List Char) : List Char := s.dropWhile isBlankChar

/-- Characters without the white space at their end. -/
def trimEnd (s : List Char) : List Char := (trimStart s.reverse).reverse

/-- Characters without the white space at both ends. -/
def trimChars (s : List Char) : List Char := trimEnd (trimStart s)

/-- A text without the white space at both ends. -/
def trim (s : String) : String := String.ofList (trimChars s.toList)

/-- A text is blank when it holds nothing but white space. -/
def isBlank (s : String) : Bool := s.toList.all isBlankChar

/-- The text, unless it is blank. -/
def nonBlank? (s : String) : Option String := if isBlank s then none else some s

end CausalTrace.Text
