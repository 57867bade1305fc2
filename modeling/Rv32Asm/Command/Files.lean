import Rv32Asm.Text.Bytes

/-!
A tree of files with a working directory, and what can go wrong with paths in it.
-/

set_option autoImplicit false
set_option relaxedAutoImplicit false

namespace Rv32Asm.Command

inductive FileProblem where
  | notFound
  | notDirectory
  | isDirectory
  | nameTooLong
  | invalidName
  | other (text : String)
deriving DecidableEq, Repr

def FileProblem.message : FileProblem → String
  | notFound => "no such file or directory"
  | notDirectory => "not a directory"
  | isDirectory => "is a directory"
  | nameTooLong => "file name too long"
  | invalidName => "invalid argument"
  | other text => text

inductive Node where
  | file (content : Bytes)
  | directory
deriving DecidableEq, Repr

abbrev Path := List String

/-- The nodes below the root, and the working directory, from which relative paths start. -/
structure FileSet where
  entries : List (Path × Node)
  here : Path
deriving DecidableEq, Repr

/-- The names of a path that is not empty: those before the last, the last one, and whether a
slash starts or ends it. -/
structure Route where
  absolute : Bool
  front : List String
  last : String
  slash : Bool
deriving DecidableEq, Repr

def splitSlashes : List Char → List (List Char)
  | [] => [[]]
  | c :: rest =>
    if c = '/' then [] :: splitSlashes rest
    else match splitSlashes rest with
      | [] => [[c]]
      | part :: parts => (c :: part) :: parts

def names (path : String) : List String :=
  ((splitSlashes path.toList).filter (· ≠ [])).map String.ofList

/-- A path of slashes only leads to where it starts. -/
def Route.ofPath (path : String) : Except FileProblem Route :=
  if path.toList.contains '\x00' then .error .invalidName
  else if path = "" then .error .notFound
  else if 4096 ≤ path.utf8ByteSize then .error .nameTooLong
  else .ok
    { absolute := path.toList.head? = some '/'
      front := (names path).dropLast
      last := (names path).getLastD "."
      slash := path.toList.getLast? = some '/' }

namespace FileSet

/-- The node at a place. The root is always there. -/
def find? (fs : FileSet) : Path → Option Node
  | [] => some .directory
  | path => fs.entries.lookup path

def child? (fs : FileSet) (directory : Path) (name : String) : Except FileProblem (Option Node) :=
  if 255 < name.utf8ByteSize then .error .nameTooLong
  else .ok (fs.find? (directory ++ [name]))

/-- Whether a name stands for a directory of the walk itself. -/
def isDots (name : String) : Bool :=
  name = "." || name = ".."

/-- Walks from a directory to one in it or above it. The root is above itself. -/
def enter (fs : FileSet) (directory : Path) (name : String) : Except FileProblem Path := do
  if name = "." then return directory
  if name = ".." then return directory.dropLast
  match ← fs.child? directory name with
  | some .directory => return directory ++ [name]
  | some (.file _) => throw .notDirectory
  | none => throw .notFound

def walk (fs : FileSet) (route : Route) : Except FileProblem Path :=
  route.front.foldlM fs.enter (if route.absolute then [] else fs.here)

/-- What a path leads to. A path that ends with a slash leads to directories only. -/
def node (fs : FileSet) (path : String) : Except FileProblem Node := do
  let route ← Route.ofPath path
  let directory ← fs.walk route
  if isDots route.last then return .directory
  match ← fs.child? directory route.last with
  | none => throw .notFound
  | some .directory => return .directory
  | some (.file content) => if route.slash then throw .notDirectory else return .file content

def insert (fs : FileSet) (path : Path) (node : Node) : FileSet :=
  { fs with entries := fs.entries.filter (fun entry => entry.1 != path) ++ [(path, node)] }

/-- Gives a file a content. The file need not be there, but its directory must. -/
def write (fs : FileSet) (path : String) (content : Bytes) : Except FileProblem FileSet := do
  let route ← Route.ofPath path
  let directory ← fs.walk route
  if isDots route.last || route.slash then throw .isDirectory
  match ← fs.child? directory route.last with
  | some .directory => throw .isDirectory
  | _ => return fs.insert (directory ++ [route.last]) (.file content)

def withParents (fs : FileSet) (path : Path) : FileSet :=
  ((List.range path.length).map path.take).foldl (fun fs above =>
    if (fs.find? above).isSome then fs else fs.insert above .directory) fs

def place (fs : FileSet) (path : Path) (node : Node) : FileSet :=
  (fs.withParents path).insert path node

def ofLists (files : List (String × Bytes)) (directories : List String) : FileSet :=
  let here := ["tmp", "work"]
  let empty := (⟨[], here⟩ : FileSet).place here .directory
  let withDirectories := directories.foldl (fun fs name =>
    fs.place (here ++ names name) .directory) empty
  files.foldl (fun fs (name, content) => fs.place (here ++ names name) (.file content))
    withDirectories

/-- The files below the working directory that are not there with that content in `before`. -/
def changes (before after : FileSet) : List (String × Bytes) :=
  after.entries.filterMap fun (path, node) =>
    match node with
    | .directory => none
    | .file content =>
      if before.find? path = some (.file content) || !after.here.isPrefixOf path then none
      else some ("/".intercalate (path.drop after.here.length), content)

end FileSet

end Rv32Asm.Command
