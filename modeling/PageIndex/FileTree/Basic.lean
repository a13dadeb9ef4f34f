import PageIndex.Members
import PageIndex.Path.Basic

/-!
# File trees

A file system at one moment, as a value: directories with named entries, regular files with
their bytes, and symbolic links with their targets. A path is looked up one component at a
time, and links met on the way are followed, up to a fixed number of them. The answer is where
the path really leads.
-/

namespace PageIndex

/-- An entry of a directory. -/
inductive Node where
  | file (content : ByteArray)
  | link (target : Path)
  | dir (entries : List (String × Node))
deriving Inhabited

namespace Node

/-- The entry of the given name; only directories have entries. -/
def child? : Node → String → Option Node
  | .dir entries, name => entries.lookup name
  | _, _ => none

/-- The entry reached by names, without following links. -/
def get? : Node → List String → Option Node
  | n, [] => some n
  | n, name :: rest =>
    match n.child? name with
    | none => none
    | some c => c.get? rest

/-- The entries of a directory; other entries have none. -/
def entries : Node → List (String × Node)
  | .dir es => es
  | _ => []

/-- The tree with `new` at the end of the names. Directories that are missing on the way are
made. -/
def put (new : Node) : List String → Node → Node
  | [], _ => new
  | name :: rest, n =>
    .dir (Members.write name (put new rest ((n.child? name).getD (.dir []))) n.entries)

/-- The tree with a directory at the end of the names, which is left as it is when there is one
already. -/
def putDir : List String → Node → Node
  | [], .dir es => .dir es
  | [], _ => .dir []
  | name :: rest, n =>
    .dir (Members.write name (putDir rest ((n.child? name).getD (.dir []))) n.entries)

/-- The tree without the entry at the end of the names. -/
def erase : List String → Node → Node
  | [], n => n
  | [name], n =>
    match n with
    | .dir es => .dir (Members.erase name es)
    | other => other
  | name :: next :: rest, n =>
    match n.child? name with
    | none => n
    | some c => .dir (Members.write name (erase (next :: rest) c) n.entries)

end Node

/-- Why a path leads nowhere or a file cannot be read. -/
inductive FileError where
  | notFound
  | notDirectory
  | isDirectory
  | tooManyLinks
  | notText
deriving DecidableEq, Repr

/-- The system's wording of an error. -/
def FileError.message : FileError → String
  | .notFound => "No such file or directory (os error 2)"
  | .notDirectory => "Not a directory (os error 20)"
  | .isDirectory => "Is a directory (os error 21)"
  | .tooManyLinks => "Too many levels of symbolic links (os error 40)"
  | .notText => "stream did not contain valid UTF-8"

/-- A file system: the root directory and the names that lead to the working directory. -/
structure FileTree where
  top : Node
  workingDir : List String
deriving Inhabited

namespace FileTree

/-- A file system with an empty root directory. -/
def empty : FileTree :=
  ⟨.dir [], []⟩

/-- The number of links that may be followed for one path. -/
def linkLimit : Nat :=
  40

/-- The steps of a path: its components, and one that stays where it is when the path ends with
a slash or a `.`, because then it must lead to a directory. -/
def steps (p : Path) : List Path.Component :=
  match p.pieces.reverse with
  | last :: _ :: _ =>
    if Path.isVoidPiece last then p.components ++ [.here] else p.components
  | _ => p.components

/-- Follows steps from the directory at the names `place`. The answer is the names of the entry
that is reached, and the entry. -/
def follow (t : FileTree) (links : Nat) (place : List String) :
    List Path.Component → Except FileError (List String × Node)
  | [] =>
    match t.top.get? place with
    | none => .error .notFound
    | some n => .ok (place, n)
  | .root :: rest => t.follow links [] rest
  | .here :: rest => t.follow links place rest
  | .up :: rest => t.follow links place.dropLast rest
  | .name s :: rest =>
    match t.top.get? (place ++ [s]) with
    | none => .error .notFound
    | some (.dir _) => t.follow links (place ++ [s]) rest
    | some (.file content) =>
      if rest.isEmpty then .ok (place ++ [s], .file content) else .error .notDirectory
    | some (.link target) =>
      match links with
      | 0 => .error .tooManyLinks
      | n + 1 => t.follow n place (steps target ++ rest)
termination_by todo => (links, todo.length)

/-- Where a path leads when all links are followed. -/
def locate (t : FileTree) (p : Path) : Except FileError (List String × Node) :=
  if p.chars.isEmpty then .error .notFound
  else t.follow linkLimit t.workingDir (steps p)

/-- Whether a path leads to a regular file. -/
def isFile (t : FileTree) (p : Path) : Bool :=
  match t.locate p with
  | .ok (_, .file _) => true
  | _ => false

/-- Whether a path leads to a directory. -/
def isDir (t : FileTree) (p : Path) : Bool :=
  match t.locate p with
  | .ok (_, .dir _) => true
  | _ => false

/-- The absolute path of an entry reached by names. -/
def pathOf (names : List String) : Path :=
  Path.ofComponents (.root :: names.map .name)

/-- The absolute path without links that a path leads to. -/
def canonicalize? (t : FileTree) (p : Path) : Option Path :=
  match t.locate p with
  | .ok (names, _) => some (pathOf names)
  | .error _ => none

/-- The working directory as a path. It is not found when its names do not lead to a directory:
then it was removed while the program stood in it. -/
def currentDir (t : FileTree) : Except FileError Path :=
  match t.top.get? t.workingDir with
  | some (.dir _) => .ok (pathOf t.workingDir)
  | _ => .error .notFound

/-- The text of the file that a path leads to. -/
def readText (t : FileTree) (p : Path) : Except FileError String :=
  match t.locate p with
  | .error e => .error e
  | .ok (_, .file content) =>
    match String.fromUTF8? content with
    | some s => .ok s
    | none => .error .notText
  | .ok _ => .error .isDirectory

/-- The names under which an entry of the given path would be made: where its directory really
is, as far as it exists, and the remaining names. -/
def placeOf (t : FileTree) : (reversed : List Path.Component) → List String
  | [] => t.workingDir
  | .root :: _ => []
  | .here :: rest => t.placeOf rest
  | .up :: rest => (t.placeOf rest).dropLast
  | .name s :: rest =>
    match t.follow linkLimit t.workingDir rest.reverse with
    | .ok (names, .dir _) => names ++ [s]
    | _ => t.placeOf rest ++ [s]

/-- Writes a file. A file that the path leads to is replaced; otherwise it is made, with the
directories it needs. -/
def write (t : FileTree) (p : Path) (content : ByteArray) : FileTree :=
  let names :=
    match t.locate p with
    | .ok (names, .file _) => names
    | _ => t.placeOf p.components.reverse
  { t with top := Node.put (.file content) names t.top }

/-- Makes a directory, with the directories it needs. -/
def makeDir (t : FileTree) (p : Path) : FileTree :=
  let names :=
    match t.locate p with
    | .ok (names, .dir _) => names
    | _ => t.placeOf p.components.reverse
  { t with top := t.top.putDir names }

/-- Makes a link, with the directories it needs. -/
def makeLink (t : FileTree) (p target : Path) : FileTree :=
  { t with top := Node.put (.link target) (t.placeOf p.components.reverse) t.top }

/-- Removes a file, a link or a directory with all it holds; `none` when there is no entry. -/
def remove? (t : FileTree) (p : Path) : Option FileTree :=
  let names := t.placeOf p.components.reverse
  match t.top.get? names with
  | none => none
  | some _ => some { t with top := t.top.erase names }

end FileTree

end PageIndex
