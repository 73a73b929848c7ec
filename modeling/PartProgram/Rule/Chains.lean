import PartProgram.CircleFit
import PartProgram.Number.Printed
import PartProgram.Rule.Basic

/-!
# PartProgram.Rule.Chains

Chains of straight feed moves that follow an arc become that arc. A chain is taken as long as its
points fit one circle, and replaced if it has enough chords. The arc leaves its own motion mode in
force, so the next feed move that counted on the old mode says it again. How points are fitted is a
parameter: the bookkeeping does not depend on it.
-/

namespace PartProgram.Rule

/-- How a row of points is taken for an arc; with the flag, as well as can be. -/
abbrev Fit := List (PlanePoint Float) → Bool → Option FittedArc

/-- A feed move in the plane that a chain may hold. -/
def isChord (s : Stop) : Bool :=
  match s.found with
  | none => false
  | some (b, r) =>
    b.onlyLetters ['G', 'X', 'Y', 'Z', 'F'] && b.onlyCodes ["G1"] && b.has ['X', 'Y'] &&
      b.comment.isNone && b.number.isNone && b.corner.isNone && r.isLinear &&
        r.warnings.isEmpty && s.before.positioning == .absolute && s.before.plane == .xy &&
          r.state.position.z == s.before.position.z

def flat (p : Position) : PlanePoint Float := ⟨p.x, p.y⟩

/-- The points of a chain with those of the chords that follow it, as long as they fit. A feed word
ends the chain. -/
def growChain (fit : Fit) (points : List (PlanePoint Float)) : List Stop → List (PlanePoint Float)
  | [] => points
  | s :: rest =>
    if isChord s && !s.block?.any (·.has ['F']) then
      let longer := points ++ [flat s.after.position]
      if (fit longer false).isSome then growChain fit longer rest else points
    else points

/-- An arc as a block. -/
def arcBlock (arc : FittedArc) (start finish : PlanePoint Float) (feed : Option Word) : String :=
  let centre := arc.circle.centre
  " ".intercalate <|
    [if arc.clockwise then "G2" else "G3",
      "X" ++ Number.coordinate finish.first, "Y" ++ Number.coordinate finish.second,
      "I" ++ Number.coordinate (centre.first - start.first),
      "J" ++ Number.coordinate (centre.second - start.second)] ++
      feed.toList.map Word.render

/-- The arc for the chain that begins at a chord, and how many more lines it takes in. -/
def chainAt? (fit : Fit) (s : Stop) (rest : List Stop) : Option (String × Nat) :=
  match s.found with
  | none => none
  | some (b, r) =>
    if !isChord s then none
    else
      let start := flat s.before.position
      let points := growChain fit [start, flat r.state.position] rest
      if points.length - 1 < CircleFit.minChords then none
      else do
        let arc ← fit points true
        let finish ← points.getLast?
        let feed := b.words.find? (·.letter == 'F')
        return (arcBlock arc start finish feed, points.length - 2)

/-- A line that stays, with the feed mode said again if an arc took it away; and whether it is still
to be said. -/
def restoreFeedMode (lost : Bool) (s : Stop) : String × Bool :=
  match lost, s.found with
  | true, some (b, r) =>
    let explicit := (b.codes 'G').any ["G0", "G1", "G2", "G3", "G80"].contains
    if explicit || r.cycle?.isSome then (s.raw, false)
    else if r.isLinear && b.dominant?.isNone then ((b.withFirst ⟨'G', "1"⟩).render, false)
    else (s.raw, true)
  | lost, _ => (s.raw, lost)

/-- The lines from a stop on, of which the next `skip` belong to an arc already. -/
def replaceChains (fit : Fit) (lost : Bool) : Nat → List Stop → Lines
  | _, [] => []
  | skip + 1, _ :: rest => replaceChains fit lost skip rest
  | 0, s :: rest =>
    match chainAt? fit s rest with
    | some (block, more) => block :: replaceChains fit true more rest
    | none =>
      let (line, lost) := restoreFeedMode lost s
      line :: replaceChains fit lost 0 rest

def useArcOptimization (ls : Lines) : Revised :=
  .ofWalk ls (replaceChains CircleFit.fit false 0)

end PartProgram.Rule
