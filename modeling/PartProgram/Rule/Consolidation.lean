import PartProgram.Rule.Basic

/-!
# PartProgram.Rule.Consolidation

Rapids on one straight line become one rapid, and modal codes on lines of their own come together on
one line.
-/

namespace PartProgram

/-- Codes of which only one can be in force at a time. -/
inductive ModalGroup where
  | plane
  | units
  | cutterComp
  | lengthComp
  | workOffset
  | cycle
  | distance
  | feedMode
  | returnLevel
deriving DecidableEq, Repr

def ModalGroup.ofCode? (code : Code) : Option ModalGroup :=
  match code with
  | "G17" | "G18" | "G19" => some plane
  | "G20" | "G21" => some units
  | "G40" => some cutterComp
  | "G49" => some lengthComp
  | "G54" | "G55" | "G56" | "G57" | "G58" | "G59" => some workOffset
  | "G80" => some cycle
  | "G90" | "G91" => some distance
  | "G94" | "G95" => some feedMode
  | "G98" | "G99" => some returnLevel
  | _ => none

namespace Point

def minus (a b : Position) : Position := ⟨a.x - b.x, a.y - b.y, a.z - b.z⟩

def dot (a b : Position) : Float := a.x * b.x + a.y * b.y + a.z * b.z

def norm (a : Position) : Float := (dot a a).sqrt

def cross (a b : Position) : Position :=
  ⟨a.y * b.z - a.z * b.y, a.z * b.x - a.x * b.z, a.x * b.y - a.y * b.x⟩

end Point

namespace Rule

/-- Distances below this are no distance. -/
def negligible : Float := 1e-9

/-- Whether three points follow each other in one direction on a straight line. -/
def continues (p q r : Position) : Bool :=
  let v := q.minus p
  let w := r.minus q
  let m := v.norm
  let n := w.norm
  if m < negligible || n < negligible then false
  else (v.cross w).norm ≤ 1e-6 * m * n && 0.0 < v.dot w

/-- A rapid that another one can take in. -/
def isPlainRapid (s : Stop) : Bool :=
  match s.found with
  | none => false
  | some (b, r) =>
    b.onlyLetters ['G', 'X', 'Y', 'Z'] && b.onlyCodes ["G0"] && r.isRapid && r.warnings.isEmpty &&
      b.comment.isNone && b.number.isNone && s.before.positioning == .absolute &&
        r.state.positioning == .absolute

/-- Whether a block leaves alone every axis on which two points differ. -/
def omitsFixed (b : Block) (start middle : Position) : Bool :=
  Axis.all.all fun axis =>
    b.has [axis.letter] || (start.get axis - middle.get axis).abs < negligible

/-- A rapid with the code of a rapid on it. -/
def asRapid (b : Block) : Block :=
  if (b.codes 'G').contains "G0" then b else b.withFirst ⟨'G', "0"⟩

/-- The lines written so far, the last one first, and the ends of the rapid that the last line is,
if it is one. -/
structure Rapids where
  written : List String := []
  open? : Option (Position × Position) := none

def Rapids.add (r : Rapids) (s : Stop) : Rapids :=
  match s.block?, isPlainRapid s with
  | some b, true =>
    let finish := s.after.position
    let separate : Rapids := ⟨s.raw :: r.written, some (s.before.position, finish)⟩
    match r.open? with
    | none => separate
    | some (start, middle) =>
      if omitsFixed b start middle && continues start middle finish then
        ⟨(asRapid b).render :: r.written.tail, some (start, finish)⟩
      else separate
  | _, _ => ⟨s.raw :: r.written, none⟩

def optimizeRapidMoves (ls : Lines) : Revised :=
  .ofWalk ls fun stops => (stops.foldl Rapids.add {}).written.reverse

/-- The codes of a block that only states modal codes, each of a group of its own. -/
def modalOnly? (b? : Option Block) : Option (List Code) :=
  match b? with
  | none => none
  | some b =>
    let codes := b.codes 'G'
    let groups := codes.map ModalGroup.ofCode?
    if b.words.isEmpty || b.comment.isSome || b.number.isSome || !b.onlyLetters ['G'] ||
        !groups.all Option.isSome || !decide groups.Nodup then
      none
    else some codes

/-- Whether two lists of codes share no group. -/
def disjointGroups (a b : List Code) : Bool :=
  a.all fun code => b.all fun other => ModalGroup.ofCode? code != ModalGroup.ofCode? other

/-- The lines written so far, the last one first, and the codes of the last line if it only states
modal codes. -/
structure ModalLines where
  written : List String := []
  open? : Option (List Code) := none

def ModalLines.add (m : ModalLines) (line : String × Option Block) : ModalLines :=
  match modalOnly? line.2 with
  | none => ⟨line.1 :: m.written, none⟩
  | some codes =>
    match m.open? with
    | none => ⟨line.1 :: m.written, some codes⟩
    | some before =>
      if disjointGroups before codes then
        ⟨" ".intercalate (before ++ codes) :: m.written.tail, some (before ++ codes)⟩
      else ⟨line.1 :: m.written, some codes⟩

def consolidateCodes (ls : Lines) : Lines :=
  ((readLines 1 ls).foldl ModalLines.add {}).written.reverse

end Rule

end PartProgram
