import PartProgram.Text.Digit

/-!
# PartProgram.CommandLine.Arguments

Arguments of a command as options and plain words. Long options may be cut short as long as it is
clear which one is meant, single letters may stand together, and a value follows its option or is
joined to it. Two dashes alone end the options. Negative numbers, and words with a blank in them,
are plain.
-/

namespace PartProgram.CommandLine

/-- An option, which is meant by any of its names. -/
structure OptionNames (κ : Type) where
  key : κ
  names : List String
  takesValue : Bool

/-- What an argument is. -/
inductive Argument (κ : Type) where
  | plain
  /-- an option with what is joined to it -/
  | option (o : OptionNames κ) (joined : Option (List Char))
  /-- no option, or more than one -/
  | unclear

/-- Options with their values, and plain words, in the order they stand. -/
inductive Item (κ : Type) where
  | option (key : κ) (value : Option String)
  | plain (word : String)
  /-- the two dashes after which no option follows -/
  | ending

section

variable {κ : Type}

def named? (options : List (OptionNames κ)) (name : List Char) : Option (OptionNames κ) :=
  options.find? fun o => o.names.contains (.ofList name)

/-- The parts of an argument before and after its first equals sign. -/
def splitJoined (cs : List Char) : List Char × Option (List Char) :=
  (cs.takeWhile (· != '='), ((cs.dropWhile (· != '=')).tail?))

/-- One entry for each name that a text cut short may stand for. -/
def abbreviated (options : List (OptionNames κ)) (start : List Char) : List (OptionNames κ) :=
  options.flatMap fun o => (o.names.filter fun n => start.isPrefixOf n.toList).map fun _ => o

def isNegativeNumber (cs : List Char) : Bool :=
  match cs with
  | '-' :: rest =>
    let (whole, after) := Text.spanDigits rest
    match after with
    | [] => !whole.isEmpty
    | '.' :: places => !places.isEmpty && places.all Text.isDigit
    | _ => false
  | _ => false

/-- The options that an argument which is no exact name may mean, with what is joined to it. -/
def meanings (options : List (OptionNames κ)) (cs : List Char) :
    List (OptionNames κ × Option (List Char)) :=
  let (name, joined) := splitJoined cs
  match cs with
  | '-' :: '-' :: _ => (abbreviated options name).map (·, joined)
  | '-' :: letter :: rest => ((named? options ['-', letter]).map (·, some rest)).toList
  | _ => []

def classify (options : List (OptionNames κ)) (cs : List Char) : Argument κ :=
  let (name, joined) := splitJoined cs
  if cs.head? != some '-' || cs.length = 1 then .plain
  else
    match named? options cs, joined.bind fun _ => named? options name with
    | some o, _ => .option o none
    | none, some o => .option o joined
    | none, none =>
      match meanings options cs with
      | [(o, joined)] => .option o joined
      | [] => if isNegativeNumber cs || cs.contains ' ' then .plain else .unclear
      | _ => .unclear

/-- Options by their letters, and the one that waits for a value. The letters after an option that
takes a value are its value. -/
def expandLetters (options : List (OptionNames κ)) :
    List Char → Option (List (Item κ) × Option κ)
  | [] => some ([], none)
  | c :: rest => do
    let o ← named? options ['-', c]
    if o.takesValue then
      return if rest.isEmpty then ([], some o.key)
        else ([.option o.key (some (.ofList rest))], none)
    else
      let (more, waiting) ← expandLetters options rest
      return (.option o.key none :: more, waiting)

/-- The options of one argument, and the one that waits for a value. -/
def expand (options : List (OptionNames κ)) (isLong : Bool) (o : OptionNames κ) :
    Option (List Char) → Option (List (Item κ) × Option κ)
  | none => some (if o.takesValue then ([], some o.key) else ([.option o.key none], none))
  | some joined =>
    if o.takesValue then some ([.option o.key (some (.ofList joined))], none)
    else if isLong || joined.isEmpty then none
    else do
      let (more, waiting) ← expandLetters options joined
      return (.option o.key none :: more, waiting)

/-- The items of an argument list, while an option may wait for its value. With `stopsAtPlain` all
is plain from the first plain word on. -/
def items (options : List (OptionNames κ)) (stopsAtPlain : Bool) (waiting : Option κ) :
    List String → Option (List (Item κ))
  | [] => if waiting.isSome then none else some []
  | word :: rest =>
    if word = "--" then if waiting.isSome then none else some (.ending :: rest.map .plain)
    else
      match waiting, classify options word.toList with
      | some key, .plain => (items options stopsAtPlain none rest).map (.option key (some word) :: ·)
      | none, .plain =>
        if stopsAtPlain then some ((word :: rest).map .plain)
        else (items options stopsAtPlain none rest).map (.plain word :: ·)
      | none, .option o joined => do
        let (done, waiting) ← expand options (word.startsWith "--") o joined
        let more ← items options stopsAtPlain waiting rest
        return done ++ more
      | _, _ => none

def Item.isOption : Item κ → Bool
  | option _ _ => true
  | _ => false

/-- The plain word among items that have only one. Two dashes may stand next to it. -/
def soleWord? : List (Item κ) → Option String
  | [] => none
  | .option _ _ :: rest => soleWord? rest
  | .ending :: rest =>
    match rest with
    | [.plain word] => some word
    | _ => none
  | .plain word :: rest =>
    match rest with
    | [.ending] => some word
    | _ => if rest.all Item.isOption then some word else none

/-- The plain words that follow the options. -/
def wordsAfter : List (Item κ) → List String
  | .option _ _ :: rest => wordsAfter rest
  | .plain word :: rest => word :: wordsAfter rest
  | _ => []

end

end PartProgram.CommandLine
