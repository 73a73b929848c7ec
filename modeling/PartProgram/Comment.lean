import PartProgram.Text.Blank
import PartProgram.Text.Scan

/-!
# PartProgram.Comment

Comments of a line. A bracket opens a comment if it is closed further on in the same line, at the
first closing bracket; a semicolon opens one that takes the rest of the line. A line is then code,
comment, code, …, code, where the code parts may be empty.
-/

namespace PartProgram

open Text

inductive Comment where
  | bracketed (text : List Char)
  | trailing (text : List Char)
deriving DecidableEq, Repr

namespace Comment

def text : Comment → List Char
  | bracketed t => t
  | trailing t => t

/-- The comment with its marks. -/
def spelled : Comment → List Char
  | bracketed t => '(' :: t ++ [')']
  | trailing t => ';' :: t

/-- The text up to the bracket that closes a comment, if one does before the line ends. -/
def bracketText? : List Char → Option (List Char)
  | [] => none
  | c :: rest =>
    if c = ')' then some []
    else if c = '\n' then none
    else (bracketText? rest).map (c :: ·)

/-- The rest of a line; a feed may stand at its very end only. -/
def trailingText? : List Char → Option (List Char)
  | [] => some []
  | c :: rest =>
    if c = '\n' then (if rest.isEmpty then some [] else none)
    else (trailingText? rest).map (c :: ·)

/-- The comment at the head of a text. -/
def recognise : Recogniser Comment
  | _, [] => none
  | _, c :: rest =>
    let found :=
      if c = '(' then (bracketText? rest).map bracketed
      else if c = ';' then (trailingText? rest).map trailing
      else none
    found.map fun comment => (comment, comment.spelled.length)

end Comment

/-- A line as code with comments in between. -/
structure CommentedLine where
  head : List Char
  tail : List (Comment × List Char)
deriving Repr

namespace CommentedLine

/-- One more character of code, or one more comment, in front. -/
def prepend : Char ⊕ Comment → CommentedLine → CommentedLine
  | .inl c, l => { l with head := c :: l.head }
  | .inr comment, l => ⟨[], (comment, l.head) :: l.tail⟩

def ofChars (cs : List Char) : CommentedLine :=
  (scan Comment.recognise cs).foldr prepend ⟨[], []⟩

/-- The code with something else in the place of each comment. -/
def codeWith (gap : List Char) (l : CommentedLine) : List Char :=
  l.head ++ l.tail.flatMap fun (_, code) => gap ++ code

/-- The line with the code parts changed and the comments as they are. -/
def mapCode (f : List Char → List Char) (l : CommentedLine) : List Char :=
  f l.head ++ l.tail.flatMap fun (comment, code) => comment.spelled ++ f code

/-- The texts of the comments without the blanks around them; blank comments say nothing. -/
def remarks (l : CommentedLine) : List (List Char) :=
  (l.tail.map fun (comment, _) => trim comment.text).filter (!·.isEmpty)

/-- All that the comments say, if they say anything. -/
def remark? (l : CommentedLine) : Option String :=
  if l.remarks.isEmpty then none else some (" ".intercalate (l.remarks.map .ofList))

end CommentedLine

/-- The code of a line with a blank for each comment, and what the comments say. -/
def splitComment (line : String) : String × Option String :=
  let l := CommentedLine.ofChars line.toList
  (.ofList (l.codeWith [' ']), l.remark?)

/-- The line with its code parts changed. -/
def mapCodeText (f : List Char → List Char) (line : String) : String :=
  .ofList ((CommentedLine.ofChars line.toList).mapCode f)

end PartProgram
