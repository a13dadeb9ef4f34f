import PageIndex.Proofs.Script.First

/-!
# The shapes of exports

An export can be written in one statement or in two: a variable that is exported where it is
declared or by a list, a default export or a variable that a list exports as `default`, an export of
another module that is handed on or that is imported and exported again. The main statement is
`Reshaped.restated`: the second shape says the same, by way of one more name.
-/

namespace PageIndex.Script.Module

/-- Whether the second module is the first one with an export written in two statements. Nothing
else exports the same name, and the first module does not mention the fresh name that the second one
may need. -/
inductive Reshaped : Option String → Module → Module → Prop where
  /-- A variable is exported by a list. -/
  | listed {before after : List Statement} {name : String} {e : Expr}
    (declared : name ∉ declaredNames ⟨before ++ after⟩)
    (exported : name ∉ exportedNames ⟨before ++ after⟩) :
    Reshaped none ⟨before ++ .exportVariables [⟨some name, some e⟩] :: after⟩
      ⟨before ++ .declareVariables [⟨some name, some e⟩] :: .exportNames none [⟨name, name⟩] ::
        after⟩
  /-- A default export becomes a variable that a list exports. -/
  | renamed {before after : List Statement} {fresh : String} {e : Expr}
    (once : ∀ s ∈ before ++ after, s.defaultOrigin? = none)
    (exported : "default" ∉ exportedNames ⟨before ++ after⟩)
    (unmentioned : ¬ Mentions ⟨before ++ .exportDefault (some e) :: after⟩ fresh) :
    Reshaped (some fresh) ⟨before ++ .exportDefault (some e) :: after⟩
      ⟨before ++ .declareVariables [⟨some fresh, some e⟩] ::
        .exportNames none [⟨fresh, "default"⟩] :: after⟩
  /-- An export of another module is imported first. -/
  | reimported {before after : List Statement} {fresh request inner name : String}
    (exported : name ∉ exportedNames ⟨before ++ after⟩)
    (unmentioned :
      ¬ Mentions ⟨before ++ .exportNames (some request) [⟨inner, name⟩] :: after⟩ fresh) :
    Reshaped (some fresh) ⟨before ++ .exportNames (some request) [⟨inner, name⟩] :: after⟩
      ⟨before ++ .importFrom request [.named inner fresh] :: .exportNames none [⟨fresh, name⟩] ::
        after⟩

/-- Whether the second module says of an export that it comes from the same, or from a name that
does. -/
def Relays (m m' : Module) (name : String) : Prop :=
  m'.exportOrigin? name = m.exportOrigin? name ∨
    ∃ inner origin, m.exportOrigin? name = some origin ∧
      m'.exportOrigin? name = some (.binding inner) ∧ m'.bindingOrigin? inner = some origin

/-- Whether two modules say the same, but the second may say it of an export by way of one of its
names. Only the second speaks of the fresh name. -/
structure Restated (fresh : Option String) (m m' : Module) : Prop where
  initial?_eq {name : String} (h : fresh ≠ some name) : m'.initial? name = m.initial? name
  importOrigin?_eq {name : String} (h : fresh ≠ some name) :
    m'.importOrigin? name = m.importOrigin? name
  starSources_eq (name : String) : m'.starSources name = m.starSources name
  relays (name : String) : m.Relays m' name
  unreferenced {name : String} (h : fresh = some name) : name ∉ m.references

section Statements

variable {before after : List Statement} {s s₁ s₂ : Statement} {name : String} {α : Type}
  {f : Statement → Option α}

private theorem findSome?_two (h : (f s₁).or (f s₂) = f s) :
    (before ++ s₁ :: s₂ :: after).findSome? f = (before ++ s :: after).findSome? f := by
  simp only [List.findSome?_append, List.findSome?_cons, ← h]
  cases f s₁ <;> cases f s₂ <;> rfl

private theorem findSome?_alone (h : ∀ x ∈ before ++ after, f x = none) :
    (before ++ s :: after).findSome? f = f s := by
  rw [← List.findSome?_eq_none_iff, List.findSome?_append, Option.or_eq_none_iff] at h
  simp only [List.findSome?_append, List.findSome?_cons, h.1, h.2, Option.none_or]
  cases f s <;> rfl

private theorem findSome?_pair (h : ∀ x ∈ before ++ after, f x = none) :
    (before ++ s₁ :: s₂ :: after).findSome? f = (f s₁).or (f s₂) := by
  rw [← List.findSome?_eq_none_iff, List.findSome?_append, Option.or_eq_none_iff] at h
  simp only [List.findSome?_append, List.findSome?_cons, h.1, h.2, Option.none_or]
  cases f s₁ <;> cases f s₂ <;> rfl

private theorem eq_none_of_notMem {names : Statement → List String} {l : List Statement}
    (named : ∀ x a, f x = some a → name ∈ names x) (h : name ∉ l.flatMap names) :
    ∀ x ∈ l, f x = none := by
  intro x hx
  cases hf : f x with
  | none => rfl
  | some a => exact absurd (List.mem_flatMap.2 ⟨x, hx, named x a hf⟩) h

private theorem mem_of_mem_rest {x : Statement} (h : x ∈ before ++ after) :
    x ∈ before ++ s :: after :=
  ((List.sublist_cons_self s after).append_left before).subset h

private theorem starSources_two (h : s.starSource? = none) (h₁ : s₁.starSource? = none)
    (h₂ : s₂.starSource? = none) :
    starSources ⟨before ++ s₁ :: s₂ :: after⟩ name = starSources ⟨before ++ s :: after⟩ name := by
  simp only [starSources, List.filterMap_append, List.filterMap_cons_none h,
    List.filterMap_cons_none h₁, List.filterMap_cons_none h₂]

end Statements

private theorem initial?_declareVariables (name n : String) (e : Expr) :
    (Statement.declareVariables [⟨some name, some e⟩]).initial? n =
      if name = n then some e else none := by
  by_cases hn : name = n <;>
    simp [Statement.initial?, Statement.declarator?, Statement.declarators, hn]

private theorem exportOrigin?_exportNames (source : Option String) (inner name n : String) :
    (Statement.exportNames source [⟨inner, name⟩]).exportOrigin? n =
      if name = n then some (source.elim (.binding inner) (.imported · inner)) else none := by
  by_cases hn : name = n <;> cases source <;> simp [Statement.exportOrigin?, hn]

/-- An export that one statement gives away may be given away by a list after another statement. -/
private theorem relays_two {before after : List Statement} {s s₁ : Statement} {inner name : String}
    {origin : Origin} {m m' : Module} (hm : m.statements = before ++ s :: after)
    (hm' : m'.statements = before ++ s₁ :: .exportNames none [⟨inner, name⟩] :: after)
    (exported : name ∉ exportedNames ⟨before ++ after⟩)
    (given : ∀ n, s.exportOrigin? n = if name = n then some origin else none)
    (silent : ∀ n, s₁.exportOrigin? n = none)
    (default : s.defaultOrigin? = none ∧ s₁.defaultOrigin? = none)
    (inward : m'.bindingOrigin? inner = some origin) (n : String) : m.Relays m' n := by
  have others : ∀ x ∈ before ++ after, x.exportOrigin? name = none :=
    eq_none_of_notMem (fun _ _ => Statement.mem_exportedNames_of_exportOrigin?) exported
  have defaults : m'.statements.findSome? Statement.defaultOrigin? =
      m.statements.findSome? Statement.defaultOrigin? := by
    rw [hm, hm']
    refine findSome?_two ?_
    rw [default.1, default.2]
    rfl
  unfold Relays
  rw [exportOrigin?_eq_or, exportOrigin?_eq_or, defaults]
  -- Both modules have the same default export, and it goes before what a list exports as `default`.
  cases (if n = "default" then m.statements.findSome? Statement.defaultOrigin? else none) with
  | some found => exact .inl rfl
  | none =>
    rw [Option.none_or, Option.none_or, hm, hm']
    by_cases hn : name = n
    · subst hn
      refine .inr ⟨inner, origin, ?_, ?_, inward⟩
      · rw [findSome?_alone others, given, if_pos rfl]
      · rw [findSome?_pair others, silent, exportOrigin?_exportNames, if_pos rfl, Option.none_or]
        rfl
    · left
      refine findSome?_two ?_
      rw [silent, exportOrigin?_exportNames, given, if_neg hn, if_neg hn]
      rfl

private theorem bindingOrigin?_declareVariables {before after : List Statement} {name : String}
    (names : List ExportName) (e : Expr) (others : ∀ x ∈ before ++ after, x.initial? name = none) :
    bindingOrigin? ⟨before ++ .declareVariables [⟨some name, some e⟩] :: .exportNames none names ::
      after⟩ name = some (.expression e) := by
  have initial : initial? ⟨before ++ .declareVariables [⟨some name, some e⟩] ::
      .exportNames none names :: after⟩ name = some e := by
    refine (findSome?_pair others).trans ?_
    rw [initial?_declareVariables, if_pos rfl]
    rfl
  simp only [bindingOrigin?, initial]

private theorem bindingOrigin?_importFrom {before after : List Statement} {name : String}
    (names : List ExportName) (request inner : String)
    (others : ∀ x ∈ before ++ after, x.initial? name = none)
    (others' : ∀ x ∈ before ++ after, x.importOrigin? name = none) :
    bindingOrigin? ⟨before ++ .importFrom request [.named inner name] :: .exportNames none names ::
      after⟩ name = some (.imported request inner) := by
  have initial : initial? ⟨before ++ .importFrom request [.named inner name] ::
      .exportNames none names :: after⟩ name = none :=
    findSome?_pair others
  have imported : importOrigin? ⟨before ++ .importFrom request [.named inner name] ::
      .exportNames none names :: after⟩ name = some (.imported request inner) := by
    refine (findSome?_pair others').trans ?_
    simp [Statement.importOrigin?]
  simp only [bindingOrigin?, initial, imported]

private theorem relays_default {before after : List Statement} {fresh : String} {e : Expr}
    (once : ∀ s ∈ before ++ after, s.defaultOrigin? = none)
    (exported : "default" ∉ exportedNames ⟨before ++ after⟩)
    (others : ∀ x ∈ before ++ after, x.initial? fresh = none) (n : String) :
    Relays ⟨before ++ .exportDefault (some e) :: after⟩
      ⟨before ++ .declareVariables [⟨some fresh, some e⟩] ::
        .exportNames none [⟨fresh, "default"⟩] :: after⟩ n := by
  have others' : ∀ x ∈ before ++ after, x.exportOrigin? "default" = none :=
    eq_none_of_notMem (fun _ _ => Statement.mem_exportedNames_of_exportOrigin?) exported
  unfold Relays
  rw [exportOrigin?_eq_or, exportOrigin?_eq_or]
  by_cases hn : n = "default"
  · subst hn
    refine .inr ⟨fresh, .expression e, ?_, ?_, bindingOrigin?_declareVariables _ e others⟩
    · rw [if_pos rfl, findSome?_alone once]
      rfl
    · rw [if_pos rfl, findSome?_pair once, findSome?_pair others', exportOrigin?_exportNames,
        if_pos rfl]
      rfl
  · left
    rw [if_neg hn, if_neg hn]
    refine congrArg (none.or ·) (findSome?_two ?_)
    rw [exportOrigin?_exportNames, if_neg (Ne.symm hn)]
    rfl

/-- A module in another shape says the same. -/
theorem Reshaped.restated {fresh : Option String} {m m' : Module} (h : Reshaped fresh m m') :
    m.Restated fresh m' := by
  cases h with
  | @listed before after name e declared exported =>
    have others : ∀ x ∈ before ++ after, x.initial? name = none :=
      eq_none_of_notMem (fun _ _ => Statement.mem_declarators_of_initial?) declared
    constructor
    case initial?_eq => exact fun _ => findSome?_two (Option.or_none ..)
    case importOrigin?_eq => exact fun _ => findSome?_two rfl
    case starSources_eq => exact fun _ => starSources_two rfl rfl rfl
    case relays =>
      refine relays_two rfl rfl exported (fun n => ?_) (fun _ => rfl) ⟨rfl, rfl⟩
        (bindingOrigin?_declareVariables _ e others)
      by_cases hn : name = n <;> simp [Statement.exportOrigin?, hn]
    case unreferenced =>
      intro n hn
      cases hn
  | @renamed before after fresh e once exported unmentioned =>
    simp only [Mentions, not_or] at unmentioned
    obtain ⟨declared, -, referenced⟩ := unmentioned
    have others : ∀ x ∈ before ++ after, x.initial? fresh = none := fun x hx =>
      eq_none_of_notMem (fun _ _ => Statement.mem_declarators_of_initial?) declared x
        (mem_of_mem_rest hx)
    constructor
    case initial?_eq =>
      intro n hn
      refine findSome?_two ?_
      rw [initial?_declareVariables, if_neg (fun h => hn (congrArg some h))]
      rfl
    case importOrigin?_eq => exact fun _ => findSome?_two rfl
    case starSources_eq => exact fun _ => starSources_two rfl rfl rfl
    case relays => exact relays_default once exported others
    case unreferenced =>
      rintro n ⟨rfl⟩
      exact referenced
  | @reimported before after fresh request inner name exported unmentioned =>
    simp only [Mentions, not_or] at unmentioned
    obtain ⟨declared, bound, referenced⟩ := unmentioned
    have others : ∀ x ∈ before ++ after, x.initial? fresh = none := fun x hx =>
      eq_none_of_notMem (fun _ _ => Statement.mem_declarators_of_initial?) declared x
        (mem_of_mem_rest hx)
    have others' : ∀ x ∈ before ++ after, x.importOrigin? fresh = none := fun x hx =>
      eq_none_of_notMem (fun _ _ => Statement.mem_boundNames_of_importOrigin?) bound x
        (mem_of_mem_rest hx)
    constructor
    case initial?_eq => exact fun _ => findSome?_two rfl
    case importOrigin?_eq =>
      intro n hn
      refine findSome?_two ?_
      have other : fresh ≠ n := fun h => hn (congrArg some h)
      simp [Statement.importOrigin?, other]
    case starSources_eq => exact fun _ => starSources_two rfl rfl rfl
    case relays =>
      exact relays_two rfl rfl exported (exportOrigin?_exportNames (some request) inner name)
        (fun _ => rfl) ⟨rfl, rfl⟩ (bindingOrigin?_importFrom _ request inner others others')
    case unreferenced =>
      rintro n ⟨rfl⟩
      exact referenced

end PageIndex.Script.Module
