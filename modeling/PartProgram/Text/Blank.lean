import PartProgram.Text.Range

/-!
# PartProgram.Text.Blank

White space: the Unicode property and the four separators U+001C to U+001F. A blank before or after
a text means nothing to a program, and neither does a blank between a letter and its number.
-/

namespace PartProgram.Text

def blankRanges : List (Nat × Nat) :=
  [(0x09, 0x0D), (0x1C, 0x20), (0x85, 0x85), (0xA0, 0xA0), (0x1680, 0x1680), (0x2000, 0x200A),
   (0x2028, 0x2029), (0x202F, 0x202F), (0x205F, 0x205F), (0x3000, 0x3000)]

def isBlank (c : Char) : Bool := inRanges blankRanges c.toNat

/-- The text from its first character that is not blank. -/
def trimLeft (cs : List Char) : List Char := cs.dropWhile isBlank

/-- The text up to its last character that is not blank. -/
def trimRight (cs : List Char) : List Char := (cs.reverse.dropWhile isBlank).reverse

def trim (cs : List Char) : List Char := trimRight (trimLeft cs)

def allBlank (cs : List Char) : Bool := cs.all isBlank

def trimmed (s : String) : String := .ofList (trim s.toList)

/-- Whether the first character of a line is blank. -/
def startsBlank (cs : List Char) : Bool := cs.head?.any isBlank

end PartProgram.Text
