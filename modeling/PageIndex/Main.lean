import PageIndex.Command

/-!
# The program

The program as it is started: it reads from the disk what a run may look at, runs the command on
that tree of files, and writes the outcome.

What a run may look at is known before the run: the root of the project, the manifest, all that
stands below the page roots, and whatever the modules found there ask for, directly or through
other modules. Reading more than a run needs changes nothing, because a lookup in the tree gives
the answer of the disk wherever the disk was read.
-/

namespace PageIndex

namespace Disk

/-- The entry with the given names. A directory comes without its entries, and a link leads to
where it ends. -/
def entry? (names : List String) : IO (Option Node) := do
  -- The names lead on from the root, so it does not matter what stands in front of them.
  let path := (← IO.appPath) / (FileTree.pathOf names).text
  try
    match (← path.symlinkMetadata).type with
    | .dir => return some (.dir [])
    | .file => return some (.file (← IO.FS.readBinFile path))
    | .symlink => return some (.link ⟨(← IO.FS.realPath path).toString⟩)
    | .other => return none
  catch _ => return none

/-- Reads what steps pass from the directory at the names `place`. What the tree holds already is
not read again. -/
partial def pass (t : FileTree) (place : List String) : List Path.Component → IO FileTree
  | [] => return t
  | .root :: rest => pass t [] rest
  | .here :: rest => pass t place rest
  | .up :: rest => pass t place.dropLast rest
  | .name s :: rest => do
    let names := place ++ [s]
    let known := t.top.get? names
    match ← if known.isSome then pure known else entry? names with
    | none => return t
    | some node =>
      let t := if known.isSome then t else { t with top := Node.put node names t.top }
      match node with
      | .dir _ => pass t names rest
      | .link target => pass t [] (target.components ++ rest)
      | .file _ => return t

/-- Reads where a path leads. -/
def add (t : FileTree) (p : Path) : IO FileTree :=
  pass t t.workingDir p.components

/-- Reads all that stands below the directory at the given names. -/
partial def addBelow (t : FileTree) (names : List String) : IO FileTree := do
  let path := (← IO.appPath) / (FileTree.pathOf names).text
  let entries ← try path.readDir catch _ => pure #[]
  entries.foldlM (fun t entry => do
    let t ← pass t names [.name entry.fileName]
    match t.top.get? (names ++ [entry.fileName]) with
    | some (.dir _) => addBelow t (names ++ [entry.fileName])
    | _ => return t) t

/-- Reads what the modules at the given paths ask for, and what is asked for there. The paths
`seen` were read before. -/
partial def addModules (aliases : AliasTable) (t : FileTree) (seen : List Path) :
    List Path → IO FileTree
  | [] => return t
  | p :: rest => do
    if seen.contains p then return ← addModules aliases t seen rest
    match t.readModule p with
    | .error _ => addModules aliases t (p :: seen) rest
    | .ok m =>
      let readings := m.sources.flatMap fun request =>
        Resolve.relative p request :: aliases.candidates request
      let t ← (readings.flatMap Resolve.probes).foldlM add t
      let targets := m.sources.filterMap (resolve? aliases t p)
      addModules aliases t (p :: seen) (targets ++ rest)

/-- The names of the working directory. When it was removed they lead nowhere. -/
def workingDir : IO (List String) := do
  try
    let here : Path := ⟨(← IO.currentDir).toString⟩
    return here.components.filterMap fun
      | .name s => some s
      | _ => none
  catch _ => return ["(unreachable)"]

/-- The tree of what a run with the given options may look at. -/
def project (options : Options) : IO FileTree := do
  let names ← workingDir
  let t ← add { FileTree.empty with workingDir := names } (FileTree.pathOf names)
  let t ← options.root.toList.foldlM add t
  match Engine.rootOf t options with
  | .error _ => return t
  | .ok root =>
    let t ← add t (root.join options.manifest)
    let engine := Engine.atRoot t options root
    let t ← engine.pageRoots.foldlM (fun t root => do
      let t ← add t root.directory
      match t.locate root.directory with
      | .ok (names, .dir _) => addBelow t names
      | _ => return t) t
    addModules engine.aliases t [] ((engine.pageFiles t).map (·.path))

end Disk

namespace Command

/-- How the program is used. -/
def usage : String :=
  String.intercalate "\n" [
    "Usage: page-index <COMMAND> [OPTIONS]",
    "",
    "Commands:",
    "  discover  List all pages with their configuration and their warnings",
    "  site      Print the site index as JSON",
    "  help      Print this text",
    "",
    "Options:",
    "      --root <DIR>              The root of the project",
    "      --app-dir <DIR>           A directory with pages of the app convention",
    "      --pages-dir <DIR>         A directory with pages of the pages convention",
    "      --tsconfig <FILE>         The manifest of the path aliases",
    "      --base-url <URL>          What stands before the routes in links",
    "      --title <TEXT>            The title of the site",
    "      --description <TEXT>      The description of the site",
    "      --section <TITLE=ROUTE>   A section of the site index",
    "      --skip-metadata-fallback  Leave pages without their own configuration out",
    "      --deny-warnings           End with a failure when there are warnings",
    "  -h, --help                    Print this text",
    ""]

/-- What the disk holds for a command. -/
def files : Command → IO FileTree
  | .discover options => Disk.project options
  | .site options => Disk.project options
  | .help => return .empty

/-- Whether styles are written: always when that is forced, never when it is forbidden, and
otherwise on a terminal. -/
def hasStyles (output : IO.FS.Stream) : IO Bool := do
  let setting (name : String) : IO (Option Bool) := return (← IO.getEnv name).map (· ≠ "0")
  if (← setting "CLICOLOR_FORCE") = some true then return true
  if (← setting "NO_COLOR").isSome then return false
  return (← setting "CLICOLOR").getD true && (← output.isTty)

/-- Runs a command on the disk and writes what the run leaves behind. -/
def perform (command : Command) : IO UInt32 := do
  let start ← IO.monoMsNow
  let output ← IO.getStdout
  let styled ← hasStyles output
  let outcome := command.run (← command.files)
  output.putStr (spansText styled outcome.output)
  let stop ← IO.monoMsNow
  output.putStr (spansText styled (outcome.closing ⟨toString (stop - start), "1"⟩))
  output.flush
  if let some e := outcome.failure then IO.eprintln ("Error: " ++ e.message)
  return outcome.status.toUInt32

end Command

end PageIndex

open PageIndex in
/-- Runs the command that the words of the command line ask for. -/
def main (words : List String) : IO UInt32 := do
  match Command.ofWords? words with
  | some .help =>
    IO.print Command.usage
    return Command.success.toUInt32
  | some command => command.perform
  | none =>
    IO.eprint Command.usage
    return Command.misused.toUInt32
