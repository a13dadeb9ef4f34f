import PageIndex.Script.Grammar
import PageIndex.Script.Interface

/-!
# The names of variables

The variables that the module of a text declares have names that are no reserved words. So no
variable is named `default`, and what a module exports under that name is its default export or an
entry in a list. The main statement is `Module.unreserved_of_parse?`.

A reader is followed by what it can return, whatever the text is that it reads. The first word of a
binding is the one place where the text matters.
-/

namespace PageIndex.Script

/-- Whether a variable has no reserved word for a name. -/
def Declarator.Unreserved (d : Declarator) : Prop :=
  ∀ name, d.name = some name → Words.isReserved name = false

/-- Whether the variables that a statement declares have no reserved words for names. -/
def Statement.Unreserved (s : Statement) : Prop :=
  ∀ d ∈ s.declarators, d.Unreserved

namespace Reader

variable {α β : Type}

/-- Whether everything that a reader can return has a property. -/
def Yields (P : α → Prop) (r : Reader α) : Prop :=
  ∀ c a c', r c = some (a, c') → P a

section Steps

variable {P : α → Prop} {Q : β → Prop} {r r' : Reader α} {a : α}

private theorem bind_at (r : Reader α) (next : α → Reader β) (c : Cursor) :
    (r >>= next) c = (r c).bind fun p => next p.1 p.2 :=
  rfl

private theorem token_at (next : Token → Reader α) (c : Cursor) :
    (token >>= next) c = next c.next.token c :=
  rfl

private theorem context_at (next : Context → Reader α) (c : Cursor) :
    (context >>= next) c = next c.context c :=
  rfl

private theorem require_at (condition : Bool) (next : Unit → Reader α) (c : Cursor) :
    (require condition >>= next) c = if condition = true then next () c else none := by
  rw [bind_at]
  cases condition <;> rfl

private theorem faultIf_at (condition : Bool) (next : Unit → Reader α) (c : Cursor) :
    (faultIf condition >>= next) c = next () { c with faulty := condition || c.faulty } := by
  rw [bind_at]
  cases condition <;> rfl

private theorem anyWord_at (c : Cursor) :
    anyWord c = c.next.token.word?.map (·, { c with next := Lexeme.first c.next.rest }) := by
  rw [anyWord, token_at]
  cases c.next.token <;> rfl

/-- A reader that returns what has the property. -/
theorem yields_pure (h : P a) : Yields P (pure a) := by
  intro c b c' returned
  cases returned
  exact h

/-- A reader that always fails returns nothing. -/
theorem yields_stop : Yields P stop := by
  intro c b c' returned
  cases returned

/-- What a reader returns is known to the next one. -/
theorem Yields.bind {next : α → Reader β} (h : Yields P r) (hn : ∀ a, P a → Yields Q (next a)) :
    Yields Q (r >>= next) := by
  intro c b c' returned
  rw [bind_at] at returned
  obtain ⟨⟨a, inner⟩, first, second⟩ := Option.bind_eq_some_iff.1 returned
  exact hn a (h c a inner first) inner b c' second

/-- The last reader decides what is returned. -/
theorem yields_bind {r : Reader α} {next : α → Reader β} (hn : ∀ a, Yields Q (next a)) :
    Yields Q (r >>= next) :=
  Yields.bind (P := fun _ => True) (fun _ _ _ _ => trivial) fun a _ => hn a

/-- Either reader may be taken. -/
theorem Yields.ite {condition : Prop} [Decidable condition] (h : Yields P r) (h' : Yields P r') :
    Yields P (if condition then r else r') := by
  split
  · exact h
  · exact h'

/-- The surroundings do not matter. -/
theorem Yields.within {change : Context → Context} (h : Yields P r) :
    Yields P (within change r) :=
  yields_bind fun _ => yields_bind fun _ => h.bind fun _ ha => yields_bind fun _ => yields_pure ha

/-- What every step keeps holds after all steps. -/
theorem yields_repeatFrom {step : α → Reader (Option α)}
    (keeps : ∀ b, P b → Yields (fun next => ∀ b' ∈ next, P b') (step b)) (h : P a) :
    Yields P (repeatFrom a step) := by
  have steps (n : Nat) : ∀ b, P b → Yields P (repeatUpTo n step b) := by
    induction n with
    | zero => exact fun _ _ => yields_stop
    | succ n ih =>
      intro b hb
      refine Yields.bind (keeps b hb) fun next hn => ?_
      cases next with
      | none => exact yields_pure hb
      | some b' => exact ih b' (hn b' rfl)
  exact yields_bind fun _ => steps _ a h

end Steps

/-- The name of a binding is no reserved word. -/
theorem yields_bindingName : Yields (fun name => Words.isReserved name = false) bindingName := by
  intro c name c' returned
  rw [bindingName, token_at, require_at, Option.ite_none_right_eq_some] at returned
  obtain ⟨isName, returned⟩ := returned
  rw [context_at, faultIf_at, anyWord_at] at returned
  obtain ⟨word, hw, same⟩ := Option.map_eq_some_iff.1 returned
  cases same
  cases ht : c.next.token <;> simp only [ht] at hw isName <;> cases hw
  simpa [Token.isIdentifier] using isName

/-- Whether the names of bindings that the readers return are no reserved words. -/
abbrev NamesBindings (r : Rules) : Prop :=
  Yields (fun name? => ∀ name ∈ name?, Words.isReserved name = false) (r .binding)

/-- A pattern of bindings that is a name is no reserved word. -/
theorem namesBindings_rules (depth : Nat) : NamesBindings (rules depth) := by
  cases depth with
  | zero => exact yields_stop
  | succ depth =>
    refine yields_bind fun t => .ite ?_ (.ite ?_ ?_)
    · exact yields_bind fun _ => yields_bind fun _ => yields_bind fun _ =>
        yields_pure fun _ h => by cases h
    · exact yields_bind fun _ => yields_bind fun _ => yields_bind fun _ =>
        yields_pure fun _ h => by cases h
    · exact yields_bindingName.bind fun name hn => yields_pure fun _ h => by cases h; exact hn

section Statements

variable {r : Rules}

/-- A variable has no reserved word for a name. -/
theorem yields_declarator (h : NamesBindings r) (constant checked : Bool) :
    Yields Declarator.Unreserved (declarator r constant checked) := by
  refine Yields.bind h fun name? hn => ?_
  dsimp only
  repeat' first
    | exact yields_pure hn
    | apply Yields.ite
    | refine yields_bind fun _ => ?_

/-- No variable in a list has a reserved word for a name. -/
theorem yields_declaratorList (h : NamesBindings r) (constant checked : Bool) :
    Yields (fun l => ∀ d ∈ l, d.Unreserved) (declaratorList r constant checked) := by
  have one := yields_declarator h constant checked
  refine one.bind fun first hf => Yields.bind (P := fun l => ∀ d ∈ l, d.Unreserved) ?_ ?_
  · refine yields_repeatFrom (fun found hl => ?_) (by simpa using hf)
    refine yields_bind fun _ => .ite ?_ (yields_pure fun _ none => by cases none)
    refine one.bind fun d hd => yields_pure fun l hc => ?_
    cases hc
    exact List.forall_mem_cons.2 ⟨hd, hl⟩
  · exact fun found hl => yields_pure fun d hd => hl d (List.mem_reverse.1 hd)

/-- No variable of a declaration has a reserved word for a name. -/
theorem yields_variableList (h : NamesBindings r) :
    Yields (fun l => ∀ d ∈ l, d.Unreserved) (variableList r) := by
  refine yields_bind fun _ => yields_bind fun _ => yields_bind fun _ => ?_
  refine (yields_declaratorList h _ true).within.bind fun l hl => ?_
  exact yields_bind fun _ => yields_pure hl

/-- What a declaration declares has no reserved words for names. -/
theorem yields_declaration (h : NamesBindings r) (found : List String) :
    Yields (fun l? => ∀ l ∈ l?, ∀ d ∈ l, d.Unreserved) (declaration r found) := by
  have ofVariables : Yields (fun l? => ∀ l ∈ l?, ∀ d ∈ l, d.Unreserved)
      (do return some (← variableList r)) :=
    (yields_variableList h).bind fun l hl => yields_pure fun _ some => by cases some; exact hl
  have nothing : Yields (fun l? => ∀ l ∈ l?, ∀ d ∈ l, d.Unreserved)
      (pure none : Reader (Option (List Declarator))) :=
    yields_pure fun _ none => by cases none
  refine yields_bind fun t => yields_bind fun _ => yields_bind fun _ => yields_bind fun _ =>
    yields_bind fun _ => .within ?_
  dsimp only
  repeat' first
    | exact ofVariables
    | exact nothing
    | apply Yields.ite
    | refine yields_bind fun _ => ?_

private theorem yields_silent {s : Statement} (h : s.declarators = []) :
    Yields Statement.Unreserved (pure s) := by
  refine yields_pure fun d hd => ?_
  rw [h] at hd
  cases hd

private theorem yields_declared {reader : Reader (Option (List Declarator))}
    (h : Yields (fun l? => ∀ l ∈ l?, ∀ d ∈ l, d.Unreserved) reader) :
    Yields Statement.Unreserved (do return declared (← reader)) := by
  refine h.bind fun l? hl => ?_
  cases l? with
  | none => exact yields_silent rfl
  | some l => exact yields_pure (hl l rfl)

/-- No variable of a statement that starts with a word has a reserved word for a name. -/
theorem yields_wordStatement (h : NamesBindings r) (position : Position) (name : String) :
    Yields Statement.Unreserved (wordStatement r position name) := by
  have ofVariables : Yields Statement.Unreserved (do return .declareVariables (← variableList r)) :=
    (yields_variableList h).bind fun l hl => yields_pure hl
  have declares (found : List String) :
      Yields Statement.Unreserved (do return declared (← declaration r found)) :=
    yields_declared (yields_declaration h found)
  unfold wordStatement
  repeat' first
    | exact ofVariables
    | exact declares _
    | exact yields_silent rfl
    | apply Yields.ite
    | refine yields_bind fun _ => ?_

/-- An import declares no variables. -/
theorem yields_importRule : Yields Statement.Unreserved importRule := by
  unfold importRule
  repeat' first
    | exact yields_silent rfl
    | apply Yields.ite
    | refine yields_bind fun _ => ?_
    | split

/-- No variable that is exported where it is declared has a reserved word for a name. -/
theorem yields_exportDeclaration (h : NamesBindings r) :
    Yields Statement.Unreserved (exportDeclaration r) := by
  have declares (found : List String) {next : Option (List Declarator) → Reader Statement}
      (listed : ∀ l, next (some l) = pure (.exportVariables l)) (other : next none = pure .other) :
      Yields Statement.Unreserved (declaration r found >>= next) := by
    refine (yields_declaration h found).bind fun l? hl => ?_
    cases l? with
    | none =>
      rw [other]
      exact yields_silent rfl
    | some l =>
      rw [listed]
      exact yields_pure (hl l rfl)
  unfold exportDeclaration
  dsimp only
  repeat' first
    | exact declares _ (fun _ => rfl) rfl
    | apply Yields.ite
    | refine yields_bind fun _ => ?_

/-- No variable of an export has a reserved word for a name. -/
theorem yields_exportRule (h : NamesBindings r) : Yields Statement.Unreserved (exportRule r) := by
  have default : Yields Statement.Unreserved (exportDefaultRest r) := by
    unfold exportDefaultRest
    dsimp only
    repeat' first
      | exact yields_silent rfl
      | apply Yields.ite
      | refine yields_bind fun _ => ?_
  have list : Yields Statement.Unreserved exportList := by
    refine yields_bind fun _ => yields_bind fun _ => .ite ?_ ?_
    · exact yields_bind fun _ => yields_bind fun _ => yields_silent rfl
    · exact yields_bind fun _ => yields_bind fun _ => yields_silent rfl
  have everything : Yields Statement.Unreserved exportEverything := by
    unfold exportEverything
    dsimp only
    repeat' first
      | exact yields_silent rfl
      | apply Yields.ite
      | refine yields_bind fun _ => ?_
  unfold exportRule
  repeat' first
    | exact default
    | exact list
    | exact everything
    | exact yields_exportDeclaration h
    | exact yields_silent rfl
    | apply Yields.ite
    | refine yields_bind fun _ => ?_

/-- No variable of a statement has a reserved word for a name. -/
theorem yields_statementRule (h : NamesBindings r) (position : Position) :
    Yields Statement.Unreserved (statementRule r position) := by
  have decorated : Yields Statement.Unreserved (decoratedRule r) := by
    unfold decoratedRule
    dsimp only
    repeat' first
      | exact yields_exportRule h
      | exact yields_silent rfl
      | apply Yields.ite
      | refine yields_bind fun _ => ?_
  refine yields_bind fun t => ?_
  split
  · exact yields_bind fun _ => .ite yields_importRule
      (.ite (yields_exportRule h) (yields_wordStatement h position _))
  · exact yields_bind fun _ => yields_silent rfl
  · exact yields_bind fun _ => yields_silent rfl
  · exact decorated
  · exact yields_bind fun _ => yields_silent rfl

end Statements

end Reader

/-- The variables that the module of a text declares have names that are no reserved words. -/
theorem Module.unreserved_of_parse? {dialect : Dialect} {text : String} {m : Module}
    (h : Module.parse? dialect text = some m) : ∀ s ∈ m.statements, s.Unreserved := by
  have statement (depth : Nat) (position : Position) :
      Reader.Yields Statement.Unreserved (rules depth (.statement position)) := by
    cases depth with
    | zero => exact Reader.yields_stop
    | succ depth => exact Reader.yields_statementRule (Reader.namesBindings_rules depth) position
  have statements (depth : Nat) :
      Reader.Yields (fun l => ∀ s ∈ l, s.Unreserved) (readStatements (rules depth)) := by
    refine Reader.Yields.bind (P := fun l => ∀ s ∈ l, s.Unreserved) ?_ ?_
    · refine Reader.yields_repeatFrom (fun found hl => ?_) fun s none => by cases none
      refine Reader.yields_bind fun _ => .ite (Reader.yields_pure fun _ none => by cases none) ?_
      refine (statement depth .list).bind fun s hs => Reader.yields_pure fun l same => ?_
      cases same
      exact List.forall_mem_cons.2 ⟨hs, hl⟩
    · exact fun found hl => Reader.yields_pure fun s hs => hl s (List.mem_reverse.1 hs)
  unfold Module.parse? at h
  dsimp only at h
  split at h
  · next found c read =>
    split at h
    · cases h
    · cases h
      exact statements _ _ found c read
  · cases h

end PageIndex.Script
