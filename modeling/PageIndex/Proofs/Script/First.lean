import PageIndex.Proofs.First
import PageIndex.Proofs.Script.Names

/-!
# What comes first

A module can say more than once where a name or an export comes from, and then what it says first
counts. The exports of a module and the names that it imports are listed here as they are written,
and the first item of a list is told by what stands before it. The main statements are
`exportOrigin?_eq_find?`, `exportOrigin?_default_of_first`, `initial?_eq_some_iff` and
`importOrigin?_eq_some_iff`, and `declaresExport_iff` for the question whether there is an export at
all. What neither declares a name nor imports one does not matter to the names of a module
(`initial?_supplying`, `importOrigin?_supplying`).
-/

namespace PageIndex

namespace Script

/-- An export that a module gives away by itself, apart from its default export. -/
inductive OwnExport where
  /-- A variable that is exported where it is declared. -/
  | declared (d : Declarator)
  /-- An entry in a list of exports, from this module or from `source`. -/
  | listed (source : Option String) (n : ExportName)

namespace OwnExport

/-- The name of an export. A pattern has none. -/
def name? : OwnExport → Option String
  | .declared d => d.name
  | .listed _ n => some n.exported

/-- Where the value of an export comes from. -/
def origin : OwnExport → Origin
  | .declared d => d.initial.elim .missing .expression
  | .listed source n => source.elim (.binding n.inner) (.imported · n.inner)

end OwnExport

namespace ImportName

/-- Whether an import binds a name to an export of its module. -/
def Binds (n : ImportName) (name exported : String) : Prop :=
  n = .named exported name ∨ n = .default name ∧ exported = "default"

/-- Whether an import binds a whole module, which is no value. -/
def isWhole : ImportName → Bool
  | .whole _ => true
  | _ => false

/-- Where a name comes from, as far as an import from `source` says it. -/
def origin? (source name : String) : ImportName → Option Origin
  | .named exported bound => if bound = name then some (.imported source exported) else none
  | .default bound => if bound = name then some (.imported source "default") else none
  | .whole _ => none

/-- An import says of a name that it binds that it comes from the module. -/
theorem origin?_eq_some_iff {n : ImportName} {source name : String} {origin : Origin} :
    n.origin? source name = some origin ↔
      ∃ exported, n.Binds name exported ∧ origin = .imported source exported := by
  cases n with
  | named exported bound =>
    simp only [origin?, Binds, Option.ite_none_right_eq_some, Option.some.injEq, named.injEq,
      reduceCtorEq, false_and, or_false]
    constructor
    · rintro ⟨rfl, rfl⟩
      exact ⟨exported, ⟨rfl, rfl⟩, rfl⟩
    · rintro ⟨_, ⟨rfl, rfl⟩, rfl⟩
      exact ⟨rfl, rfl⟩
  | default bound =>
    simp only [origin?, Binds, Option.ite_none_right_eq_some, Option.some.injEq, default.injEq,
      reduceCtorEq, false_or]
    constructor
    · rintro ⟨rfl, rfl⟩
      exact ⟨"default", ⟨rfl, rfl⟩, rfl⟩
    · rintro ⟨_, ⟨rfl, rfl⟩, rfl⟩
      exact ⟨rfl, rfl⟩
  | whole bound => simp [origin?, Binds]

end ImportName

namespace Statement

/-- The exports that a statement gives away by itself, in their order. -/
def ownExports : Statement → List OwnExport
  | .exportVariables l => l.map .declared
  | .exportNames source names => names.map (.listed source)
  | _ => []

/-- The names that a statement imports, each with the module it comes from, in their order. -/
def importedNames : Statement → List (String × ImportName)
  | .importFrom source names => names.map (source, ·)
  | _ => []

/-- Whether a statement gives a name its initial value: the first variable of that name in the
statement has it. -/
def Initializes (s : Statement) (name : String) (e : Expr) : Prop :=
  ∃ d, First (fun d => d.name = some name) s.declarators d ∧ d.initial = some e

/-- What of a statement can give a name its value: variables that are no patterns, and imports of
single exports. -/
def supplying? : Statement → Option Statement
  | .declareVariables l => some (.declareVariables (l.filter (·.name.isSome)))
  | .exportVariables l => some (.declareVariables (l.filter (·.name.isSome)))
  | .importFrom source names =>
    match names.filter (!·.isWhole) with
    | [] => none
    | kept => some (.importFrom source kept)
  | _ => none

variable {s : Statement} {name : String} {e : Expr}

/-- What a statement says of an export is said by the first export of that name in it. -/
theorem exportOrigin?_eq_find? (s : Statement) (name : String) :
    s.exportOrigin? name =
      (s.ownExports.find? fun x => x.name? == some name).map OwnExport.origin := by
  cases s with
  | exportVariables l =>
    rw [ownExports, List.find?_map, Option.map_map]
    refine congrArg (Option.map · _) (funext fun d => ?_)
    simp only [Function.comp_apply, OwnExport.origin]
    cases d.initial <;> rfl
  | exportNames source names =>
    rw [ownExports, List.find?_map, Option.map_map]
    cases source <;> rfl
  | _ => rfl

/-- The names that a statement exports are those of its exports. -/
theorem mem_exportedNames_iff :
    name ∈ s.exportedNames ↔ ∃ x ∈ s.ownExports, x.name? = some name := by
  cases s with
  | exportVariables l => simp [exportedNames, ownExports, OwnExport.name?]
  | exportNames source names => simp [exportedNames, ownExports, OwnExport.name?]
  | _ => simp [exportedNames, ownExports]

/-- The initial value that a statement gives to a name is that of the first variable. -/
theorem initial?_eq_some_iff : s.initial? name = some e ↔ s.Initializes name e := by
  rw [initial?, Option.bind_eq_some_iff, Initializes]
  exact exists_congr fun d => and_congr_left' (find?_eq_some_iff_first fun _ => beq_iff_eq)

/-- Only an export of a whole module speaks of a module all of whose exports are exported again. -/
theorem starSource?_eq_some_iff {source : String} :
    s.starSource? = some source ↔ s = .exportAll source false := by
  cases s with
  | exportAll source' gathered => cases gathered <;> simp [starSource?]
  | _ => simp [starSource?]

/-- Where a statement says that a name is imported from is said by its imports, one by one. -/
theorem importOrigin?_eq_findSome? (s : Statement) (name : String) :
    s.importOrigin? name = s.importedNames.findSome? fun p => p.2.origin? p.1 name := by
  cases s with
  | importFrom source names =>
    rw [importedNames, List.findSome?_map]
    refine congrArg (List.findSome? · names) (funext fun n => ?_)
    cases n <;> rfl
  | _ => rfl

/-- A statement gives a name its initial value with what of it can do so. -/
theorem initial?_supplying? (s : Statement) (name : String) :
    (s.supplying?.bind fun t => t.initial? name) = s.initial? name := by
  have named (l : List Declarator) :
      ((l.filter (·.name.isSome)).find? fun d => d.name == some name) =
        l.find? fun d => d.name == some name := by
    rw [List.find?_filter]
    refine congrArg (List.find? · l) (funext fun d => ?_)
    rw [Bool.eq_iff_iff]
    cases d.name <;> simp
  cases s with
  | declareVariables l | exportVariables l =>
    exact congrArg (Option.bind · Declarator.initial) (named l)
  | importFrom source names =>
    rw [supplying?]
    split <;> rfl
  | _ => rfl

/-- A statement imports a name with what of it can do so. -/
theorem importOrigin?_supplying? (s : Statement) (name : String) :
    (s.supplying?.bind fun t => t.importOrigin? name) = s.importOrigin? name := by
  cases s with
  | importFrom source names =>
    have single : (importFrom source (names.filter (!·.isWhole))).importOrigin? name =
        (importFrom source names).importOrigin? name := by
      rw [importOrigin?, importOrigin?, ← List.head?_filterMap, List.filterMap_filter,
        List.head?_filterMap]
      refine congrArg (List.findSome? · names) (funext fun n => ?_)
      cases n <;> rfl
    rw [← single, supplying?]
    split
    · next absent =>
      rw [absent]
      rfl
    · rfl
  | _ => rfl

end Statement

namespace Module

/-- The exports that a module gives away by itself, in their order. -/
def ownExports (m : Module) : List OwnExport :=
  m.statements.flatMap Statement.ownExports

/-- The names that a module imports, each with the module it comes from, in their order. -/
def importedNames (m : Module) : List (String × ImportName) :=
  m.statements.flatMap Statement.importedNames

/-- What of a module can give a name its value. -/
def supplying (m : Module) : Module :=
  ⟨m.statements.filterMap Statement.supplying?⟩

variable {m : Module} {name : String}

/-- The default export goes before the exports that are named `default`. -/
theorem exportOrigin?_eq_or (m : Module) (name : String) :
    m.exportOrigin? name =
      (if name = "default" then m.statements.findSome? Statement.defaultOrigin? else none).or
        (m.statements.findSome? (·.exportOrigin? name)) := by
  unfold exportOrigin?
  split <;> simp [*]

/-- Without a default export, an export comes from where the first one of its name comes from. -/
theorem exportOrigin?_eq_find? (h : name = "default" → ∀ v, .exportDefault v ∉ m.statements) :
    m.exportOrigin? name =
      (m.ownExports.find? fun x => x.name? == some name).map OwnExport.origin := by
  have default : (if name = "default" then m.statements.findSome? Statement.defaultOrigin?
      else none) = none := by
    rw [ite_eq_right_iff]
    intro hn
    rw [List.findSome?_eq_none_iff]
    intro s hs
    cases s with
    | exportDefault v => exact absurd hs (h hn v)
    | _ => rfl
  rw [exportOrigin?_eq_or, default, Option.none_or, ownExports, List.find?_flatMap,
    List.map_findSome?]
  exact congrArg (List.findSome? · _) (funext fun s => s.exportOrigin?_eq_find? name)

/-- The first default export tells where the export named `default` comes from. -/
theorem exportOrigin?_default_of_first {value : Option Expr}
    (h : First (fun s => ∃ v, s = .exportDefault v) m.statements (.exportDefault value)) :
    m.exportOrigin? "default" = some (value.elim .missing .expression) := by
  obtain ⟨before, after, parts, -, earliest⟩ := h
  have silent (s : Statement) (hs : s ∈ before) : s.defaultOrigin? = Option.none := by
    cases s with
    | exportDefault v => exact absurd ⟨v, rfl⟩ (earliest _ hs)
    | _ => rfl
  have found : m.statements.findSome? Statement.defaultOrigin? =
      some (value.elim .missing .expression) :=
    List.findSome?_eq_some_iff.2 ⟨before, _, after, parts, by cases value <;> rfl, silent⟩
  rw [exportOrigin?_eq_or, if_pos rfl, found, Option.some_or]

/-- A module declares the names of its own exports as exports. -/
theorem declaresExport_iff :
    m.declaresExport name = true ↔ ∃ x ∈ m.ownExports, x.name? = some name := by
  simp only [declaresExport, List.any_eq_true, List.contains_iff_mem,
    Statement.mem_exportedNames_iff, ownExports, List.mem_flatMap]
  constructor
  · rintro ⟨s, hs, x, hx, named⟩
    exact ⟨x, ⟨s, hs, hx⟩, named⟩
  · rintro ⟨x, ⟨s, hs, hx⟩, named⟩
    exact ⟨s, hs, x, hx, named⟩

/-- The modules whose exports are exported again are searched in the order of the statements. -/
theorem findSome?_starSources {α : Type} (h : name ≠ "default") (f : String → Option α) :
    (m.starSources name).findSome? f = m.statements.findSome? fun s => s.starSource?.bind f := by
  rw [starSources, if_neg h, findSome?_filterMap]

/-- The initial value of a name is given by the first statement that gives it one. -/
theorem initial?_eq_some_iff {e : Expr} :
    m.initial? name = some e ↔
      ∃ s, First (fun t => ∃ e', t.Initializes name e') m.statements s ∧ s.Initializes name e := by
  simp only [initial?, findSome?_eq_some_iff_first, Statement.initial?_eq_some_iff]

/-- A name is imported from where the first import of that name says. -/
theorem importOrigin?_eq_some_iff {source exported : String} :
    m.importOrigin? name = some (.imported source exported) ↔
      ∃ n, First (fun p => ∃ exported', p.2.Binds name exported') m.importedNames (source, n) ∧
        n.Binds name exported := by
  have eachSays : m.importOrigin? name =
      m.importedNames.findSome? fun p => p.2.origin? p.1 name := by
    rw [importedNames, ← List.head?_filterMap, List.filterMap_flatMap, List.head?_flatMap]
    refine congrArg (List.findSome? · m.statements) (funext fun s => ?_)
    rw [s.importOrigin?_eq_findSome?, List.head?_filterMap]
  have gives (p : String × ImportName) :
      (∃ o, p.2.origin? p.1 name = some o) ↔ ∃ exported', p.2.Binds name exported' := by
    simp only [ImportName.origin?_eq_some_iff]
    exact ⟨fun ⟨_, other, h, _⟩ => ⟨other, h⟩, fun ⟨other, h⟩ => ⟨_, other, h, rfl⟩⟩
  simp only [eachSays, findSome?_eq_some_iff_first, gives]
  constructor
  · rintro ⟨⟨source', n⟩, first, given⟩
    obtain ⟨other, binds, same⟩ := ImportName.origin?_eq_some_iff.1 given
    cases same
    exact ⟨n, first, binds⟩
  · rintro ⟨n, first, binds⟩
    exact ⟨(source, n), first, ImportName.origin?_eq_some_iff.2 ⟨exported, binds, rfl⟩⟩

/-- What can give names their values gives them the same initial values. -/
theorem initial?_supplying (m : Module) (name : String) :
    m.supplying.initial? name = m.initial? name := by
  rw [initial?, supplying, findSome?_filterMap]
  exact congrArg (List.findSome? · m.statements) (funext fun s => s.initial?_supplying? name)

/-- What can give names their values imports the same names. -/
theorem importOrigin?_supplying (m : Module) (name : String) :
    m.supplying.importOrigin? name = m.importOrigin? name := by
  rw [importOrigin?, supplying, findSome?_filterMap]
  exact congrArg (List.findSome? · m.statements) (funext fun s => s.importOrigin?_supplying? name)

end Module

end Script

end PageIndex
