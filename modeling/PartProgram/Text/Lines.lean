/-!
# PartProgram.Text.Lines

A text as lines. Feeds, returns, the vertical and form feed, the three information separators and
the line ends beyond ASCII all end a line; a return with a feed after it ends one line only. The
last line needs no end.
-/

namespace PartProgram.Text

def isLineEnd (c : Char) : Bool :=
  [0x0A, 0x0B, 0x0C, 0x0D, 0x1C, 0x1D, 0x1E, 0x85, 0x2028, 0x2029].contains c.toNat

/-- The lines of a text that goes on after `line`, which is held in reverse. -/
def linesAfter (line : List Char) : List Char → List (List Char)
  | [] => if line.isEmpty then [] else [line.reverse]
  | '\r' :: '\n' :: rest => line.reverse :: linesAfter [] rest
  | c :: rest => if isLineEnd c then line.reverse :: linesAfter [] rest else linesAfter (c :: line) rest

/-- The lines of a text, without their ends. -/
def lines (s : String) : List String := (linesAfter [] s.toList).map .ofList

/-- The lines with a feed between them. -/
def joinLines (ls : List String) : String := "\n".intercalate ls

/-- The parts of a text between feeds; a feed alone has an empty part on either side. -/
def feedPartsAfter (line : List Char) : List Char → List (List Char)
  | [] => [line.reverse]
  | '\n' :: rest => line.reverse :: feedPartsAfter [] rest
  | c :: rest => feedPartsAfter (c :: line) rest

def feedParts (s : String) : List String := (feedPartsAfter [] s.toList).map .ofList

/-- Files are read with every return, alone or before a feed, as a feed. -/
def unifyFeeds : List Char → List Char
  | [] => []
  | '\r' :: '\n' :: rest => '\n' :: unifyFeeds rest
  | c :: rest => (if c = '\r' then '\n' else c) :: unifyFeeds rest

/-- Whether a text holds another. -/
def holds (part : List Char) : List Char → Bool
  | [] => part.isEmpty
  | c :: rest => part.isPrefixOf (c :: rest) || holds part rest

end PartProgram.Text
