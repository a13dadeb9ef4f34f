import PageIndex.Path.Basic
import PageIndex.Site.Rule

/-!
# Options

The options of a run, and how they are read from the words of a command line. An option that
takes a value takes it from the same word, after an equals sign, or from the next word, unless
that word starts like an option. The options that list directories and sections may repeat, and
the first of them replaces the default list; the others may be given once.

A value from a word of its own is looked at only when the next option is known, so a word that
is no option is reported before a bad value in front of it.
-/

namespace PageIndex

/-- The options of a run (`Config`). -/
structure Options where
  /-- The root of the project; the working directory when it is not given. -/
  root : Option Path
  /-- The page roots of the app convention, seen from the root of the project. -/
  appDirs : List Path
  /-- The page roots of the pages convention, seen from the root of the project. -/
  pagesDirs : List Path
  /-- The alias manifest, seen from the root of the project. -/
  manifest : Path
  /-- What stands before the routes in the links of the site index. -/
  baseUrl : String
  /-- The title of the site. -/
  title : String
  /-- The description of the site. -/
  description : String
  /-- The sections of the site index. -/
  sections : List SectionRule
  /-- Whether pages whose configuration was made up from metadata stay out of the site index. -/
  skipMetadataFallback : Bool
  /-- Whether a run with warnings ends with a failure. -/
  denyWarnings : Bool
deriving DecidableEq, Repr

namespace Options

/-- The options of a run without any words (`Config::default`). -/
def default : Options where
  root := none
  appDirs := [⟨"app"⟩, ⟨"src/app"⟩]
  pagesDirs := [⟨"pages"⟩, ⟨"src/pages"⟩]
  manifest := ⟨"tsconfig.json"⟩
  baseUrl := "http://localhost:3000"
  title := "My llms.txt Site"
  description := "This is my llms.txt generated site."
  sections := []
  skipMetadataFallback := false
  denyWarnings := false

/-- Why a command line has no options. -/
inductive Problem where
  /-- A word that is no option, or a free-standing value. -/
  | unknownArgument (word : String)
  /-- An option without a value, or an empty path. -/
  | invalidValue
  /-- An option given twice that may be given once. -/
  | conflict
  /-- A value for a switch. -/
  | tooManyValues
  /-- A value that is no section rule. -/
  | badSection (value : String)
  /-- A request for the help text. -/
  | help
deriving DecidableEq, Repr

/-- The wording of a problem, where it has one of its own. -/
def Problem.message? : Problem → Option String
  | .badSection value => some ("expected `Title=/prefix`, got `" ++ value ++ "`")
  | _ => none

/-- The options that take a value. -/
inductive Valued where
  | root
  | appDir
  | pagesDir
  | manifest
  | baseUrl
  | title
  | description
  | sectionRule
deriving DecidableEq, Repr

/-- The options without a value. -/
inductive Switch where
  | skipMetadataFallback
  | denyWarnings
  | help
deriving DecidableEq, Repr

/-- The option of a name that takes a value. -/
def Valued.ofName? (name : String) : Option Valued :=
  if name = "root" then some .root
  else if name = "app-dir" then some .appDir
  else if name = "pages-dir" then some .pagesDir
  else if name = "tsconfig" then some .manifest
  else if name = "base-url" then some .baseUrl
  else if name = "title" then some .title
  else if name = "description" then some .description
  else if name = "section" then some .sectionRule
  else none

/-- The switch of a name. -/
def Switch.ofName? (name : String) : Option Switch :=
  if name = "skip-metadata-fallback" then some .skipMetadataFallback
  else if name = "deny-warnings" then some .denyWarnings
  else if name = "help" then some .help
  else none

/-- Whether an option may be given more than once. -/
def Valued.repeats : Valued → Bool
  | .appDir | .pagesDir | .sectionRule => true
  | _ => false

/-- What has been read of a command line. -/
structure Progress where
  options : Options
  /-- The options whose values were read. -/
  valued : List Valued
  /-- The switches that were read. -/
  switches : List Switch
  /-- The last option when its value comes in a word of its own, and that word when it came. -/
  pending : Option (Valued × Option String)

/-- The start of a command line. -/
def Progress.start : Progress :=
  ⟨default, [], [], none⟩

/-- A path option needs a value that is not empty. -/
def pathValue (value : String) : Except Problem Path :=
  if value = "" then .error .invalidValue else .ok ⟨value⟩

/-- Gives an option its value. The first value of a list option replaces the default list. -/
def setValue (o : Options) (isFirst : Bool) (value : String) : Valued → Except Problem Options
  | .root => do
    let p ← pathValue value
    return { o with root := some p }
  | .appDir => do
    let p ← pathValue value
    return { o with appDirs := if isFirst then [p] else o.appDirs ++ [p] }
  | .pagesDir => do
    let p ← pathValue value
    return { o with pagesDirs := if isFirst then [p] else o.pagesDirs ++ [p] }
  | .manifest => do
    let p ← pathValue value
    return { o with manifest := p }
  | .baseUrl => .ok { o with baseUrl := value }
  | .title => .ok { o with title := value }
  | .description => .ok { o with description := value }
  | .sectionRule =>
    match SectionRule.ofText? value with
    | none => .error (.badSection value)
    | some rule => .ok { o with sections := if isFirst then [rule] else o.sections ++ [rule] }

/-- Reads an option with its value. -/
def Progress.addValue (p : Progress) (option : Valued) (value : String) :
    Except Problem Progress := do
  let given := p.valued.contains option
  if given && !option.repeats then throw .conflict
  let options ← setValue p.options (!given) value option
  return { p with options, valued := option :: p.valued }

/-- Reads the pending option, which must have got its value. -/
def Progress.settle (p : Progress) : Except Problem Progress :=
  match p.pending with
  | none => .ok p
  | some (_, none) => .error .invalidValue
  | some (option, some value) => { p with pending := none }.addValue option value

/-- Reads a switch. -/
def Progress.addSwitch (p : Progress) (switch : Switch) : Except Problem Progress :=
  if p.switches.contains switch then .error .conflict
  else
    let switches := switch :: p.switches
    match switch with
    | .skipMetadataFallback =>
      .ok { p with options := { p.options with skipMetadataFallback := true }, switches }
    | .denyWarnings => .ok { p with options := { p.options with denyWarnings := true }, switches }
    | .help => .error .help

/-- Reads an option that is written with two dashes, given its name and the value after an
equals sign. -/
def Progress.addLong (p : Progress) (word name : String) (attached : Option String) :
    Except Problem Progress :=
  match Valued.ofName? name, Switch.ofName? name, attached with
  | some option, _, some value => do
    let p ← p.settle
    p.addValue option value
  | some option, _, none => do
    let p ← p.settle
    return { p with pending := some (option, none) }
  | none, some _, some _ => .error .tooManyValues
  | none, some switch, none => do
    let p ← p.settle
    p.addSwitch switch
  | none, none, _ => .error (.unknownArgument word)

/-- Reads a word that is no option: the value that the pending option waits for. -/
def Progress.addPlain (p : Progress) (word : String) : Except Problem Progress :=
  match p.pending with
  | some (option, none) => .ok { p with pending := some (option, some word) }
  | _ => .error (.unknownArgument word)

/-- Reads one word other than the two dashes that end the options. -/
def Progress.addWord (p : Progress) (word : String) : Except Problem Progress :=
  match word.toList with
  | '-' :: '-' :: body =>
    match SectionRule.cutAt? '=' body with
    | some (name, value) => p.addLong word (String.ofList name) (some (String.ofList value))
    | none => p.addLong word (String.ofList body) none
  | '-' :: 'h' :: _ => do
    let p ← p.settle
    p.addSwitch .help
  | '-' :: _ :: _ => .error (.unknownArgument word)
  | _ => p.addPlain word

/-- Reads the words of a command line. Nothing may follow two dashes that stand alone. -/
def Progress.read (p : Progress) : List String → Except Problem Progress
  | [] => p.settle
  | word :: rest =>
    if word = "--" then
      match rest with
      | [] => p.settle
      | extra :: _ => .error (.unknownArgument extra)
    else
      match p.addWord word with
      | .error e => .error e
      | .ok next => next.read rest

/-- The options that the words of a command line give. -/
def ofWords (words : List String) : Except Problem Options :=
  (Progress.start.read words).map (·.options)

end Options

end PageIndex
