import PageIndex.Script.Tree

/-!
# What a module offers

Where the value of a name comes from: the first declaration or import that binds it inside a
module, and the first export that gives it away. Whether that leads to a value is a question of
its own.
-/

namespace PageIndex.Script

/-- Where a value comes from. -/
inductive Origin where
  /-- An expression of the same module. -/
  | expression (e : Expr)
  /-- A name of the same module. -/
  | binding (name : String)
  /-- An export of another module. -/
  | imported (request exported : String)
  /-- Nowhere: the name is taken, but there is nothing to find. -/
  | missing

namespace Statement

/-- The variables that a statement declares, exported or not. -/
def declarators : Statement → List Declarator
  | .declareVariables l => l
  | .exportVariables l => l
  | _ => []

/-- The first variable of the given name that a statement declares. -/
def declarator? (name : String) (s : Statement) : Option Declarator :=
  s.declarators.find? fun d => d.name == some name

/-- The initial value that a statement gives to a name. Only the first declaration of the name in
the statement counts. -/
def initial? (name : String) (s : Statement) : Option Expr :=
  (s.declarator? name).bind (·.initial)

/-- Where an imported name comes from. An import of a whole module is no value. -/
def importOrigin? (name : String) : Statement → Option Origin
  | .importFrom source names =>
    names.findSome? fun
      | .named exported bound => if bound = name then some (.imported source exported) else none
      | .default bound => if bound = name then some (.imported source "default") else none
      | .whole _ => none
  | _ => none

/-- Where the value of an export comes from, if the statement exports the name by itself. -/
def exportOrigin? (name : String) : Statement → Option Origin
  | .exportVariables l =>
    (l.find? fun d => d.name == some name).map fun d =>
      match d.initial with
      | some e => .expression e
      | none => .missing
  | .exportNames source names =>
    (names.find? fun n => n.exported == name).map fun n =>
      match source with
      | some request => .imported request n.inner
      | none => .binding n.inner
  | _ => none

/-- Where the default export comes from, if the statement is one. -/
def defaultOrigin? : Statement → Option Origin
  | .exportDefault (some e) => some (.expression e)
  | .exportDefault none => some .missing
  | _ => none

/-- The module all of whose exports a statement exports again. -/
def starSource? : Statement → Option String
  | .exportAll source false => some source
  | _ => none

/-- The modules that a statement speaks of. -/
def sources : Statement → List String
  | .importFrom source _ => [source]
  | .exportNames (some source) _ => [source]
  | .exportAll source _ => [source]
  | _ => []

/-- The names that a statement exports by itself. -/
def exportedNames : Statement → List String
  | .exportVariables l => l.filterMap (·.name)
  | .exportNames _ names => names.map (·.exported)
  | _ => []

/-- A statement declares the names to which it gives an initial value. -/
theorem mem_declarators_of_initial? {s : Statement} {name : String} {e : Expr}
    (h : s.initial? name = some e) : name ∈ s.declarators.filterMap (·.name) := by
  obtain ⟨d, hd, -⟩ := Option.bind_eq_some_iff.1 h
  have hn : d.name = some name := by simpa using List.find?_some hd
  exact List.mem_filterMap.2 ⟨d, List.mem_of_find?_eq_some hd, hn⟩

end Statement

namespace Module

/-- The initial value of the first declaration that gives the name one
(`find_local_initializer`). -/
def initial? (m : Module) (name : String) : Option Expr :=
  m.statements.findSome? (·.initial? name)

/-- Where a name comes from that the module imports. -/
def importOrigin? (m : Module) (name : String) : Option Origin :=
  m.statements.findSome? (·.importOrigin? name)

/-- Where the value of an export comes from, if the module exports the name by itself. A default
export goes before exports that are named `default`. -/
def exportOrigin? (m : Module) (name : String) : Option Origin :=
  match if name = "default" then m.statements.findSome? Statement.defaultOrigin? else none with
  | some origin => some origin
  | none => m.statements.findSome? (·.exportOrigin? name)

/-- The modules whose exports are exported again. That does not reach the default export. -/
def starSources (m : Module) (name : String) : List String :=
  if name = "default" then [] else m.statements.filterMap Statement.starSource?

/-- The names of the variables that the module declares. -/
def declaredNames (m : Module) : List String :=
  m.statements.flatMap fun s => s.declarators.filterMap (·.name)

/-- Whether the module exports a name by itself, as something other than its default export
(`declares_export`). -/
def declaresExport (m : Module) (name : String) : Bool :=
  m.statements.any fun s => s.exportedNames.contains name

/-- The modules that the module speaks of. -/
def sources (m : Module) : List String :=
  m.statements.flatMap Statement.sources

/-- A name with an initial value is declared. -/
theorem mem_declaredNames_of_initial? {m : Module} {name : String} {e : Expr}
    (h : m.initial? name = some e) : name ∈ m.declaredNames := by
  obtain ⟨s, hs, he⟩ := List.exists_of_findSome?_eq_some h
  exact List.mem_flatMap.2 ⟨s, hs, Statement.mem_declarators_of_initial? he⟩

/-- A module speaks of the module that it imports a name from. -/
theorem mem_sources_of_importOrigin? {m : Module} {name request exported : String}
    (h : m.importOrigin? name = some (.imported request exported)) : request ∈ m.sources := by
  obtain ⟨s, hs, ho⟩ := List.exists_of_findSome?_eq_some h
  refine List.mem_flatMap.2 ⟨s, hs, ?_⟩
  cases s with
  | importFrom source names =>
    obtain ⟨n, -, hn⟩ := List.exists_of_findSome?_eq_some ho
    cases n <;> simp_all [Statement.sources]
  | _ => simp [Statement.importOrigin?] at ho

/-- A module speaks of the module that it exports a name from. -/
theorem mem_sources_of_exportOrigin? {m : Module} {name request exported : String}
    (h : m.exportOrigin? name = some (.imported request exported)) : request ∈ m.sources := by
  unfold exportOrigin? at h
  split at h
  · next origin hd =>
    split at hd
    · obtain ⟨s, -, ho⟩ := List.exists_of_findSome?_eq_some hd
      cases h
      cases s with
      | exportDefault value => cases value <;> simp [Statement.defaultOrigin?] at ho
      | _ => simp [Statement.defaultOrigin?] at ho
    · cases hd
  · obtain ⟨s, hs, ho⟩ := List.exists_of_findSome?_eq_some h
    refine List.mem_flatMap.2 ⟨s, hs, ?_⟩
    cases s with
    | exportVariables l =>
      obtain ⟨d, -, hd⟩ := Option.map_eq_some_iff.1 ho
      split at hd <;> cases hd
    | exportNames source names =>
      obtain ⟨n, -, hn⟩ := Option.map_eq_some_iff.1 ho
      cases source <;> simp_all [Statement.sources]
    | _ => simp [Statement.exportOrigin?] at ho

/-- A module speaks of the modules whose exports it exports again. -/
theorem mem_sources_of_starSources {m : Module} {name request : String}
    (h : request ∈ m.starSources name) : request ∈ m.sources := by
  unfold starSources at h
  split at h
  · cases h
  · obtain ⟨s, hs, ho⟩ := List.mem_filterMap.1 h
    refine List.mem_flatMap.2 ⟨s, hs, ?_⟩
    cases s with
    | exportAll source gathered =>
      cases gathered <;> simp_all [Statement.starSource?, Statement.sources]
    | _ => simp [Statement.starSource?] at ho

end Module

end PageIndex.Script
