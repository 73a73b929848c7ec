import PartProgram.Text.Lines
import PartProgram.Text.Quoted

/-!
# PartProgram.CommandLine.Directory

The files that a command works on. A path is a list of names from the folder that the command runs
in; a folder is there if it was made or if a file lies in it.
-/

namespace PartProgram.CommandLine

/-- A path with the names it goes through. -/
structure Path where
  isAbsolute : Bool := false
  names : List String
deriving DecidableEq, Repr

namespace Path

def partsAfter (name : List Char) : List Char → List (List Char)
  | [] => [name.reverse]
  | '/' :: rest => name.reverse :: partsAfter [] rest
  | c :: rest => partsAfter (c :: name) rest

/-- A written path. Empty names and single points lead nowhere and are left out. -/
def ofString (s : String) : Path :=
  { isAbsolute := s.startsWith "/"
    names := ((partsAfter [] s.toList).map String.ofList).filter fun n => n != "" && n != "." }

def render (p : Path) : String :=
  let body := "/".intercalate p.names
  if p.isAbsolute then "/" ++ body else if body.isEmpty then "." else body

def child (p : Path) (name : String) : Path := { p with names := p.names ++ [name] }

end Path

/-- Why a path cannot be used. -/
inductive FileFault where
  | missing (path : Path)
  | taken (path : Path)
  | notFolder (path : Path)
  | isFolder (path : Path)
deriving DecidableEq, Repr

def FileFault.message : FileFault → String
  | missing p => "[Errno 2] No such file or directory: " ++ Text.quoted p.render
  | taken p => "[Errno 17] File exists: " ++ Text.quoted p.render
  | notFolder p => "[Errno 20] Not a directory: " ++ Text.quoted p.render
  | isFolder p => "[Errno 21] Is a directory: " ++ Text.quoted p.render

structure Directory where
  files : List (List String × String) := []
  folders : List (List String) := []
deriving Repr

/-- What a path leads to. -/
inductive Place where
  | file (text : String)
  | folder (names : List String)
  | nothing
  /-- the path goes on behind a file -/
  | behindFile

namespace Directory

def isFolder (d : Directory) (names : List String) : Bool :=
  names.isEmpty || d.folders.contains names ||
    d.files.any fun f => names.isPrefixOf f.1 && names.length < f.1.length

/-- The names after one more; two points lead back. -/
def stepTo (here : List String) (name : String) : List String :=
  if name = ".." then here.dropLast else here ++ [name]

/-- Where names lead from a folder. What lies outside the first folder is not known. -/
def follow (d : Directory) (here : List String) : List String → Place
  | [] => .folder here
  | name :: rest =>
    let next := stepTo here name
    if name = ".." && here.isEmpty && !rest.isEmpty then .nothing
    else
      match d.files.lookup next with
      | some text => if rest.isEmpty then .file text else .behindFile
      | none => if d.isFolder next then d.follow next rest else .nothing

def find (d : Directory) (p : Path) : Place :=
  if p.isAbsolute then .nothing else d.follow [] p.names

/-- The text of a file. -/
def read (d : Directory) (p : Path) : Except FileFault String :=
  match d.find p with
  | .file text => .ok (.ofList (Text.unifyFeeds text.toList))
  | .folder _ => .error (.isFolder p)
  | .nothing => .error (.missing p)
  | .behindFile => .error (.notFolder p)

/-- A folder with the folders that lead to it, made where they are not there yet. -/
def makeFolder (d : Directory) (p : Path) (here : List String) :
    List String → Except FileFault (Directory × List String)
  | [] => .ok (d, here)
  | name :: rest =>
    let next := stepTo here name
    if (d.files.lookup next).isSome then
      .error (if rest.isEmpty then .taken p else .notFolder p)
    else if d.isFolder next then d.makeFolder p next rest
    else { d with folders := d.folders ++ [next] }.makeFolder p next rest

/-- The names of a new file in a folder. -/
def newFile (d : Directory) (folder : Path) (name : String) : Except FileFault (List String) := do
  let (_, names) ← d.makeFolder folder [] folder.names
  return names ++ [name]

end Directory

end PartProgram.CommandLine
