import PartProgram.Rule.Normalize

/-!
# PartProgram.Rule.Spelling

Other spellings of the same words. Codes lose their leading zeros, gaps shrink to one blank, and
whole coordinates get the decimal point that tells them from a count of increments. Only the code of
a line changes; comments stay as they are.
-/

namespace PartProgram.Rule

open Text

/-- Whether a letter can begin a word after the given character: it is not the end of a name. -/
def beginsWord (previous : Option Char) : Bool := !previous.any fun c => 'A' ≤ c && c ≤ 'Z'

/-- Whether a number ends here, and without a point. -/
def endsWhole (cs : List Char) : Bool := !cs.head?.any fun c => isDigit c || c = '.'

/-- A code of one digit after zeros, without the zeros. -/
def recogniseLeadingZeros : Recogniser (List Char)
  | _, [] => none
  | previous, c :: rest =>
    if beginsWord previous && (c = 'G' || c = 'M') then
      let zeros := (rest.takeWhile (· == '0')).length
      match zeros, rest.drop zeros with
      | 0, _ => none
      | _ + 1, d :: after =>
        if isDigit d then
          if endsWhole after then some ([c, d], zeros + 2) else none
        else if 2 ≤ zeros && endsWhole (d :: after) then some ([c, '0'], zeros + 1)
        else none
      | _ + 1, [] => if 2 ≤ zeros then some ([c, '0'], zeros + 1) else none
    else none

/-- Code without leading zeros and wide gaps. -/
def compact (code : List Char) : List Char :=
  replaceAll (recogniseGap 1) (replaceAll recogniseLeadingZeros code)

def compactLine (line : String) : String := trimmed (mapCodeText compact line)

def compactCode (ls : Lines) : Lines := ls.map compactLine

/-- Letters whose numbers are lengths. -/
def lengthLetters : List Char := ['X', 'Y', 'Z', 'I', 'J', 'K', 'R']

/-- A length written as a whole number, with its point. -/
def recogniseWholeLength : Recogniser (List Char)
  | _, [] => none
  | previous, c :: rest =>
    if beginsWord previous && lengthLetters.contains c then
      let sign := (rest.take 1).filter Number.isSign
      let (digits, after) := spanDigits (rest.drop sign.length)
      if !digits.isEmpty && endsWhole after then
        some (c :: sign ++ digits ++ ['.'], 1 + sign.length + digits.length)
      else none
    else none

/-- Code with a point after every whole length. -/
def pointLengths (code : List Char) : List Char := replaceAll recogniseWholeLength code

def pointLine (line : String) : String := mapCodeText pointLengths line

def decimalFormat (ls : Lines) : Lines := ls.map pointLine

end PartProgram.Rule
