import PartProgram.Number.Numeral
import PartProgram.Number.Layout
import PartProgram.Number.Scalar

/-!
# PartProgram.Word

Address words: a letter and a number, as in `X-10.5`. The number keeps its spelling, so that a word
can be written again as it was; its value and its code are read off the spelling. Two words have one
code when their values agree, however they are spelled: `G01` and `G1` are both the code `G1`.
-/

namespace PartProgram

open Number

/-- A letter with its number in canonical spelling, such as `G1` or `G13.1`. -/
abbrev Code := String

/-- The number of a code: all digits of a whole number, six significant digits of any other. -/
def codeNumber (x : Float) : String :=
  match whole? x with
  | some n => toString n
  | none => general x

structure Word where
  letter : Char
  /-- the number as written -/
  text : String
deriving DecidableEq, Repr

namespace Word

def value (w : Word) : Float := numeralValue w.text.toList

def code (w : Word) : Code := .singleton w.letter ++ codeNumber w.value

def render (w : Word) : String := .singleton w.letter ++ w.text

end Word

/-- The letters that a control knows. -/
def addressLetters : List Char := "GMXYZIJKRQPFSTDHWLA".toList

/-- The letters of the three linear axes. -/
def axisLetters : List Char := ['X', 'Y', 'Z']

/-- A chamfer or corner radius such as `,C1` or `,R0.5`. It belongs to the block and is not the word
`R`. -/
structure Corner where
  letter : Char
  /-- the number as written -/
  text : String
deriving DecidableEq, Repr

def Corner.render (c : Corner) : String := "," ++ .singleton c.letter ++ c.text

namespace Code

def arcs : List Code := ["G2", "G3"]

def linear : List Code := ["G1", "G0"]

def cycles : List Code :=
  ["G73", "G76", "G81", "G82", "G83", "G84", "G85", "G86", "G87", "G88", "G89"]

def shapes : List Code := ["G12", "G13", "G13.1", "G13.2", "G13.3"]

def dwell : List Code := ["G4"]

/-- Codes that decide how a block moves, the strongest first. -/
def byDominance : List Code := arcs ++ linear ++ cycles ++ shapes ++ dwell

/-- Codes that stay active as the way to move. -/
def motionModes : List Code := ["G0", "G1", "G2", "G3"]

end Code

end PartProgram
