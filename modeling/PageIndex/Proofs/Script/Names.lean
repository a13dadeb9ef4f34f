import PageIndex.Script.Interface

/-!
# The names in a module

The names that the statements of a module declare, import, export and refer to. A statement speaks
of a name only if it is one of them. The main statement is `references_subset_of_exportOrigin?`:
where an export comes from, the module refers to all names that stand there.
-/

namespace PageIndex.Script

mutual

/-- The names that an expression refers to. -/
def Expr.references : Expr → List String
  | .reference name => [name]
  | .object members => memberReferences members
  | .array items => itemReferences items
  | .negative e => e.references
  | .parenthesized e => e.references
  | .cast e => e.references
  | .satisfying e => e.references
  | .present e => e.references
  | _ => []

/-- The names that the values of members refer to. -/
def memberReferences : List Member → List String
  | [] => []
  | .property _ e :: rest => e.references ++ memberReferences rest
  | _ :: rest => memberReferences rest

/-- The names that items refer to. -/
def itemReferences : List Item → List String
  | [] => []
  | .item e :: rest => e.references ++ itemReferences rest
  | _ :: rest => itemReferences rest

end

private theorem references_subset_members {key : Key} {e : Expr} {members : List Member}
    (h : .property key e ∈ members) : e.references ⊆ memberReferences members := by
  intro name hn
  induction members with
  | nil => cases h
  | cons member rest ih =>
    rcases List.mem_cons.1 h with rfl | hr
    · exact List.mem_append_left _ hn
    · cases member with
      | property key' e' => exact List.mem_append_right _ (ih hr)
      | _ => exact ih hr

private theorem references_subset_items {e : Expr} {items : List Item} (h : .item e ∈ items) :
    e.references ⊆ itemReferences items := by
  intro name hn
  induction items with
  | nil => cases h
  | cons item rest ih =>
    rcases List.mem_cons.1 h with rfl | hr
    · exact List.mem_append_left _ hn
    · cases item with
      | item e' => exact List.mem_append_right _ (ih hr)
      | _ => exact ih hr

/-- The expressions that an expression is made of, as far as they say what its value is. -/
inductive Expr.PartOf : Expr → Expr → Prop where
  | member {key : String} {e : Expr} {members : List Member}
    (h : .property (.name key) e ∈ members) : PartOf e (.object members)
  | item {e : Expr} {items : List Item} (h : .item e ∈ items) : PartOf e (.array items)
  | parenthesized (e : Expr) : PartOf e (.parenthesized e)
  | cast (e : Expr) : PartOf e (.cast e)
  | satisfying (e : Expr) : PartOf e (.satisfying e)
  | present (e : Expr) : PartOf e (.present e)

namespace Expr.PartOf

variable {part e : Expr}

/-- What an expression is made of is smaller. -/
theorem sizeOf_lt (h : part.PartOf e) : sizeOf part < sizeOf e := by
  cases h with
  | member h =>
    have smaller := List.sizeOf_lt_of_mem h
    simp only [Member.property.sizeOf_spec] at smaller
    simp only [Expr.object.sizeOf_spec]
    omega
  | item h =>
    have smaller := List.sizeOf_lt_of_mem h
    simp only [Item.item.sizeOf_spec] at smaller
    simp only [Expr.array.sizeOf_spec]
    omega
  | _ => simp

/-- What an expression is made of refers to no other names. -/
theorem references_subset (h : part.PartOf e) : part.references ⊆ e.references := by
  cases h with
  | member h => exact references_subset_members h
  | item h => exact references_subset_items h
  | _ => exact fun name hn => hn

end Expr.PartOf

/-- The names of its module that stand where a value comes from. -/
def Origin.references : Origin → List String
  | .expression e => e.references
  | .binding name => [name]
  | .imported _ _ => []
  | .missing => []

namespace Statement

/-- The names under which a statement imports exports of another module. -/
def boundNames : Statement → List String
  | .importFrom _ names =>
    names.filterMap fun
      | .named _ bound => some bound
      | .default bound => some bound
      | .whole _ => none
  | _ => []

/-- The names of its module that a statement refers to. -/
def references : Statement → List String
  | .declareVariables l => l.flatMap fun d => d.initial.elim [] Expr.references
  | .exportVariables l => l.flatMap fun d => d.initial.elim [] Expr.references
  | .exportNames none names => names.map (·.inner)
  | .exportDefault (some e) => e.references
  | _ => []

variable {s : Statement} {name : String} {e : Expr} {origin : Origin}

/-- A statement binds the names that it says are imported. -/
theorem mem_boundNames_of_importOrigin? (h : s.importOrigin? name = some origin) :
    name ∈ s.boundNames := by
  cases s with
  | importFrom source names =>
    obtain ⟨n, hn, ho⟩ := List.exists_of_findSome?_eq_some h
    refine List.mem_filterMap.2 ⟨n, hn, ?_⟩
    cases n <;> simp_all
  | _ => simp [importOrigin?] at h

/-- A statement exports the names that it says where they come from. -/
theorem mem_exportedNames_of_exportOrigin? (h : s.exportOrigin? name = some origin) :
    name ∈ s.exportedNames := by
  cases s with
  | exportVariables l =>
    obtain ⟨d, hd, -⟩ := Option.map_eq_some_iff.1 h
    have hn : d.name = some name := by simpa using List.find?_some hd
    exact List.mem_filterMap.2 ⟨d, List.mem_of_find?_eq_some hd, hn⟩
  | exportNames source names =>
    obtain ⟨n, hn, -⟩ := Option.map_eq_some_iff.1 h
    have he : n.exported = name := by simpa using List.find?_some hn
    exact List.mem_map.2 ⟨n, List.mem_of_find?_eq_some hn, he⟩
  | _ => simp [exportOrigin?] at h

/-- What a statement imports comes from another module. -/
theorem importOrigin?_eq_imported (h : s.importOrigin? name = some origin) :
    ∃ request exported, origin = .imported request exported := by
  cases s with
  | importFrom source names =>
    obtain ⟨n, -, ho⟩ := List.exists_of_findSome?_eq_some h
    cases n with
    | named exported bound =>
      exact ⟨source, exported, (Option.some.inj (Option.ite_none_right_eq_some.1 ho).2).symm⟩
    | default bound =>
      exact ⟨source, "default", (Option.some.inj (Option.ite_none_right_eq_some.1 ho).2).symm⟩
    | whole bound => cases ho
  | _ => simp [importOrigin?] at h

private theorem references_subset_flatMap {l : List Declarator} {d : Declarator} (hd : d ∈ l)
    (he : d.initial = some e) :
    e.references ⊆ l.flatMap fun d => d.initial.elim [] Expr.references := by
  intro name hn
  refine List.mem_flatMap.2 ⟨d, hd, ?_⟩
  rw [he]
  exact hn

/-- A statement refers to the names in the initial values that it gives. -/
theorem references_subset_of_initial? (h : s.initial? name = some e) :
    e.references ⊆ s.references := by
  obtain ⟨d, hd, he⟩ := Option.bind_eq_some_iff.1 h
  have declared := List.mem_of_find?_eq_some hd
  cases s with
  | declareVariables l => exact references_subset_flatMap declared he
  | exportVariables l => exact references_subset_flatMap declared he
  | _ => cases declared

/-- A statement refers to the names from which it says that an export comes. -/
theorem references_subset_of_exportOrigin? (h : s.exportOrigin? name = some origin) :
    origin.references ⊆ s.references := by
  cases s with
  | exportVariables l =>
    obtain ⟨d, hd, rfl⟩ := Option.map_eq_some_iff.1 h
    cases he : d.initial with
    | none => exact List.nil_subset _
    | some e => exact references_subset_flatMap (List.mem_of_find?_eq_some hd) he
  | exportNames source names =>
    obtain ⟨n, hn, rfl⟩ := Option.map_eq_some_iff.1 h
    cases source with
    | none =>
      intro inner hi
      rw [List.mem_singleton.1 hi]
      exact List.mem_map_of_mem (List.mem_of_find?_eq_some hn)
    | some request => exact List.nil_subset _
  | _ => cases h

/-- A statement refers to the names from which it says that the default export comes. -/
theorem references_subset_of_defaultOrigin? (h : s.defaultOrigin? = some origin) :
    origin.references ⊆ s.references := by
  cases s with
  | exportDefault value =>
    cases value with
    | none =>
      cases h
      exact List.nil_subset _
    | some e =>
      cases h
      exact fun name hn => hn
  | _ => cases h

end Statement

namespace Module

/-- The names under which a module imports exports of other modules. -/
def boundNames (m : Module) : List String :=
  m.statements.flatMap Statement.boundNames

/-- The names that a module exports by itself, apart from its default export. -/
def exportedNames (m : Module) : List String :=
  m.statements.flatMap Statement.exportedNames

/-- The names of its own that a module refers to. -/
def references (m : Module) : List String :=
  m.statements.flatMap Statement.references

/-- Where a name of a module comes from. -/
def bindingOrigin? (m : Module) (name : String) : Option Origin :=
  match m.initial? name with
  | some e => some (.expression e)
  | none => m.importOrigin? name

/-- Whether a module declares a name, imports something under it or refers to it. -/
def Mentions (m : Module) (name : String) : Prop :=
  name ∈ m.declaredNames ∨ name ∈ m.boundNames ∨ name ∈ m.references

variable {m : Module} {name : String} {e : Expr} {origin : Origin}

private theorem subset_flatMap_of_findSome? {α β : Type} {f : Statement → Option α}
    {names : Statement → List β} {a : α} {l : List Statement} {found : List β}
    (subset : ∀ s, f s = some a → found ⊆ names s) (h : l.findSome? f = some a) :
    found ⊆ l.flatMap names := by
  obtain ⟨s, hs, ha⟩ := List.exists_of_findSome?_eq_some h
  intro b hb
  exact List.mem_flatMap.2 ⟨s, hs, subset s ha hb⟩

/-- What a module imports comes from another module. -/
theorem importOrigin?_eq_imported (h : m.importOrigin? name = some origin) :
    ∃ request exported, origin = .imported request exported := by
  obtain ⟨s, -, ho⟩ := List.exists_of_findSome?_eq_some h
  exact Statement.importOrigin?_eq_imported ho

/-- A module refers to the names in its initial values. -/
theorem references_subset_of_initial? (h : m.initial? name = some e) :
    e.references ⊆ m.references :=
  subset_flatMap_of_findSome? (fun _ => Statement.references_subset_of_initial?) h

/-- A module refers to the names from which its exports come. -/
theorem references_subset_of_exportOrigin? (h : m.exportOrigin? name = some origin) :
    origin.references ⊆ m.references := by
  unfold exportOrigin? at h
  split at h
  · next found hd =>
    cases h
    have default := (Option.ite_none_right_eq_some.1 hd).2
    exact subset_flatMap_of_findSome?
      (fun _ => Statement.references_subset_of_defaultOrigin?) default
  · exact subset_flatMap_of_findSome? (fun _ => Statement.references_subset_of_exportOrigin?) h

end Module

end PageIndex.Script
