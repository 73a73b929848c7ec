import PartProgram.Comment
import PartProgram.Text.Lines
import PartProgram.Text.UpperCase
import PartProgram.Word

/-!
# PartProgram.Block

Blocks, the lines of a program that say something to the machine. Reading a line takes the comments
out, then the block number, then the corner word, and finds the address words in what is left. A
block is written again from its parts with single blanks between them.
-/

namespace PartProgram

open Text Number

structure Block where
  /-- the line it was read from -/
  raw : String
  /-- the number of that line, from one -/
  line : Int
  words : List Word
  comment : Option String
  /-- the number after `N` -/
  number : Option Nat
  corner : Option Corner
deriving DecidableEq, Repr

namespace Block

/-- The number of the first word with the letter; later ones are ignored. -/
def value (b : Block) (letter : Char) : Option Float :=
  (b.words.find? (·.letter == letter)).map Word.value

/-- The number of a word, or zero without one; a negative zero is zero as well. -/
def valueOrZero (b : Block) (letter : Char) : Float :=
  match b.value letter with
  | some value => if value == 0.0 then 0.0 else value
  | none => 0.0

/-- Whether the block has a word with one of the letters. -/
def has (b : Block) (letters : List Char) : Bool :=
  b.words.any fun w => letters.contains w.letter

/-- The codes of a letter in the order of the block. -/
def codes (b : Block) (letter : Char) : List Code :=
  (b.words.filter (·.letter == letter)).map Word.code

def letters (b : Block) : List Char := b.words.map Word.letter

/-- Whether only words with these letters stand on the block. -/
def onlyLetters (b : Block) (letters : List Char) : Bool :=
  b.words.all fun w => letters.contains w.letter

/-- Whether no other `G` code stands on the block. -/
def onlyCodes (b : Block) (codes : List Code) : Bool :=
  (b.codes 'G').all codes.contains

/-- The code that decides how the block moves; modal words alone have none. -/
def dominant? (b : Block) : Option Code :=
  Code.byDominance.find? (b.codes 'G').contains

/-- Whether the block ends the program. -/
def endsProgram (b : Block) : Bool := (b.codes 'M').any ["M2", "M30"].contains

/-- The block without the words of a letter or of a code. -/
def without (b : Block) (marks : List String) : Block :=
  { b with
    words := b.words.filter fun w =>
      !marks.contains (.singleton w.letter) && !marks.contains w.code }

/-- The block with one more word in front. -/
def withFirst (b : Block) (w : Word) : Block := { b with words := w :: b.words }

/-- Nothing is left to write. -/
def isBare (b : Block) : Bool := b.words.isEmpty && b.comment.isNone && b.corner.isNone

/-- Block number, words and corner word, with single blanks. -/
def renderCode (b : Block) : String :=
  " ".intercalate
    (b.number.toList.map (fun n => "N" ++ toString n) ++ b.words.map Word.render ++
      b.corner.toList.map Corner.render)

/-- The block as a line; the comment follows a semicolon. -/
def render (b : Block) : String :=
  let code := b.renderCode
  match b.comment with
  | none => code
  | some comment => if code.isEmpty then "; " ++ comment else code ++ " ; " ++ comment

/-- The letters a word may begin with, once the line is in upper case. Two letters beyond ASCII have
an ASCII letter for their lower case. -/
def isWordLetter (c : Char) : Bool :=
  ('A' ≤ c && c ≤ 'Z') || c = '\u0130' || c = '\u212A'

/-- The word at the head of a text; blanks may stand before its number. -/
def recogniseWord : Recogniser Word
  | _, [] => none
  | _, c :: rest =>
    if isWordLetter c then
      (numeral? (trimLeft rest)).map fun (text, after) =>
        (⟨c, .ofList text⟩, taken (c :: rest) after)
    else none

/-- All address words of a code text, known to a control or not. -/
def addressWords (code : List Char) : List Word := matchesOf recogniseWord (upperCase code)

/-- The corner word at the head of a text. -/
def recogniseCorner : List Char → Option (Corner × Nat)
  | [] => none
  | c :: rest =>
    if c = ',' then
      match trimLeft rest with
      | [] => none
      | letter :: after =>
        if letter.toUpper = 'R' || letter.toUpper = 'C' then
          (numeral? (trimLeft after)).map fun (text, after) =>
            (⟨letter.toUpper, .ofList text⟩, taken (c :: rest) after)
        else none
    else none

/-- The block number at the head of a code text, and the code after it. -/
def splitNumber (code : List Char) : Option Nat × List Char :=
  match trimLeft code with
  | [] => (none, code)
  | c :: rest =>
    let (digits, after) := spanDigits rest
    if c.toUpper = 'N' && !digits.isEmpty then (some (digitsValue digits), after) else (none, code)

/-- The first corner word, and the code with a blank in its place. -/
def splitCorner (code : List Char) : Option Corner × List Char :=
  match firstMatch recogniseCorner code with
  | some (before, corner, after) => (some corner, before ++ ' ' :: after)
  | none => (none, code)

/-- The line without the feeds and returns at its end. -/
def dropLineEnd (cs : List Char) : List Char :=
  (cs.reverse.dropWhile fun c => c = '\r' || c = '\n').reverse

/-- The code of a line that holds a block: neither blank nor the tape marker `%` alone. -/
def code? (l : CommentedLine) : Option (List Char) :=
  let code := trim (l.codeWith [' '])
  if code.isEmpty || code = ['%'] then none else some code

/-- The block on a line, if there is one. -/
def read? (line : String) (lineNumber : Int) : Option Block :=
  let raw := dropLineEnd line.toList
  let parts := CommentedLine.ofChars raw
  (code? parts).map fun code =>
    let (number, code) := splitNumber code
    let (corner, code) := splitCorner code
    { raw := .ofList raw
      line := lineNumber
      words := (addressWords code).filter fun w => addressLetters.contains w.letter
      comment := parts.remark?
      number := number
      corner := corner }

/-- The blocks of numbered lines. -/
def readLinesFrom (first : Int) : List String → List Block
  | [] => []
  | line :: rest => (read? line first).toList ++ readLinesFrom (first + 1) rest

end Block

/-- The blocks of a program text. -/
def blocks (text : String) : List Block := Block.readLinesFrom 1 (lines text)

end PartProgram
