import PageIndex.Proofs.Alias.Directory
import PageIndex.Proofs.Engine.Opening
import PageIndex.Workspace

/-!
# The history of a workspace

What a workspace is after any sequence of steps. The files are what the steps that write and remove
files make of them. The engine is the one that was opened last, with the aliases that the manifest
had then, and the pages are those that it found in the last pass. The main statement is
`run_keeps_engine_and_pages`: nothing else that is done in between makes a difference to them, and
this includes attempts to open an engine that fail.
-/

namespace PageIndex

namespace Workspace

namespace Step

/-- The files that a step leaves behind. -/
def files (t : FileTree) : Step → FileTree
  | .write p content => t.write p content
  | .remove p => (t.remove? p).getD t
  | _ => t

/-- The engine that a step opens on the files that it finds. Words that give no options open none,
and neither do options with which no engine can be opened. -/
def opens? (t : FileTree) : Step → Option Engine
  | .start words =>
    match Options.ofWords words with
    | .ok options => (Engine.ofOptions t options).toOption
    | .error _ => none
  | _ => none

/-- The pages that a step puts in the place of those that are kept, if it does so: an engine that
is opened has none yet. -/
def pages? (w : Workspace) : Step → Option (List PageRecord)
  | .pass => w.engine.map (·.discover w.tree)
  | s => (s.opens? w.tree).map fun _ => []

/-- Whether a step replaces the pages that are kept: it reads them, or it opens an engine on the
files that it finds. -/
def Renews (t : FileTree) (s : Step) : Prop :=
  s = .pass ∨ ∃ engine, s.opens? t = some engine

/-- A step that does not replace the pages opens no engine. -/
theorem opens?_of_not_renews {t : FileTree} {s : Step} (h : ¬ s.Renews t) : s.opens? t = none :=
  Option.eq_none_iff_forall_ne_some.2 fun engine opened => h (.inr ⟨engine, opened⟩)

/-- A step that does not replace the pages has none to put in their place. -/
theorem pages?_of_not_renews {w : Workspace} {s : Step} (h : ¬ s.Renews w.tree) :
    s.pages? w = none := by
  have unopened : s.opens? w.tree = none := opens?_of_not_renews h
  cases s with
  | pass => exact absurd (.inl rfl) h
  | _ => simp only [pages?, unopened, Option.map_none]

end Step

/-- Whether each of the steps has a property, with the files that it finds. -/
def EachStep (P : FileTree → Step → Prop) : FileTree → List Step → Prop
  | _, [] => True
  | t, s :: rest => P t s ∧ EachStep P (s.files t) rest

/-- Steps that each have a property have what follows from it. -/
theorem EachStep.imp {P Q : FileTree → Step → Prop} (h : ∀ t s, P t s → Q t s) {t : FileTree}
    {steps : List Step} (each : EachStep P t steps) : EachStep Q t steps := by
  induction steps generalizing t with
  | nil => trivial
  | cons s rest ih => exact ⟨h t s each.1, ih each.2⟩

/-- The files that steps leave behind. -/
def filesAfter (t : FileTree) (steps : List Step) : FileTree :=
  steps.foldl Step.files t

/-- The files that steps leave behind that are done in two parts. -/
theorem filesAfter_append (t : FileTree) (before since : List Step) :
    filesAfter t (before ++ since) = filesAfter (filesAfter t before) since :=
  List.foldl_append

/-- What a step leaves behind: the files as it changes them, the engine that it opens on the files
as they were, and the pages that it puts in the place of those that were kept. -/
theorem step_fst (w : Workspace) (s : Step) :
    (w.step s).1 =
      ⟨s.files w.tree, (s.opens? w.tree).or w.engine, (s.pages? w).getD w.pages⟩ := by
  cases s with
  | remove p =>
    simp only [step, Step.files]
    cases w.tree.remove? p <;> rfl
  | start words =>
    simp only [step, Step.opens?, Step.pages?]
    cases Options.ofWords words with
    | error problem => rfl
    | ok options =>
      dsimp only
      cases Engine.ofOptions w.tree options <;> rfl
  | pass | site | storedSite | report =>
    obtain ⟨tree, engine, pages⟩ := w
    cases engine <;> rfl
  | write p content => rfl
  | find route => rfl
  | warnings => rfl

section Run

variable (w : Workspace) (s : Step) (steps since : List Step)

/-- The first step is done before the others. -/
theorem run_cons : w.run (s :: steps) = (w.step s).1.run steps :=
  rfl

/-- Steps may be done in two parts. -/
theorem run_append : w.run (steps ++ since) = (w.run steps).run since :=
  List.foldl_append

/-- A step changes the files as it is told. -/
theorem tree_step : (w.step s).1.tree = s.files w.tree := by
  rw [step_fst]

/-- Steps change the files only by writing and removing them. -/
theorem tree_run : (w.run steps).tree = filesAfter w.tree steps := by
  induction steps generalizing w with
  | nil => rfl
  | cons s rest ih =>
    rw [run_cons, ih, tree_step]
    rfl

variable {w steps}

/-- An engine stays open until another one is opened. -/
theorem engine_run (h : EachStep (fun t s => s.opens? t = none) w.tree steps) :
    (w.run steps).engine = w.engine := by
  induction steps generalizing w with
  | nil => rfl
  | cons s rest ih =>
    obtain ⟨unopened, others⟩ := h
    rw [← tree_step] at others
    rw [run_cons, ih others, step_fst, unopened]
    rfl

/-- The pages are kept until they are read again or another engine is opened. -/
theorem pages_run (h : EachStep (fun t s => ¬ s.Renews t) w.tree steps) :
    (w.run steps).pages = w.pages := by
  induction steps generalizing w with
  | nil => rfl
  | cons s rest ih =>
    obtain ⟨kept, others⟩ := h
    rw [← tree_step] at others
    rw [run_cons, ih others, step_fst, Step.pages?_of_not_renews kept]
    rfl

/-- An engine that was opened stays the one that was opened on the files as they were. -/
theorem engine_run_start {words : List String} {options : Options} {engine : Engine}
    (valid : Options.ofWords words = .ok options)
    (opened : Engine.ofOptions w.tree options = .ok engine)
    (h : EachStep (fun t s => s.opens? t = none) w.tree steps) :
    (w.run (.start words :: steps)).engine = some engine := by
  have start : (w.step (.start words)).1 = ⟨w.tree, some engine, []⟩ := by
    simp only [step, valid, opened]
  rw [run_cons, start]
  exact engine_run h

/-- The pages that are kept after a pass are those that the engine found in the files as they
were. -/
theorem run_pass {engine : Engine} (he : w.engine = some engine)
    (h : EachStep (fun t s => ¬ s.Renews t) w.tree steps) :
    (w.run (.pass :: steps)).engine = some engine ∧
      (w.run (.pass :: steps)).pages = engine.discover w.tree := by
  have read : (w.step .pass).1 = ⟨w.tree, some engine, engine.discover w.tree⟩ := by
    simp only [step, he]
  rw [run_cons, read]
  exact ⟨engine_run (h.imp fun _ _ => Step.opens?_of_not_renews), pages_run h⟩

end Run

/-- What any sequence of steps leaves of an engine and its pages. An engine that was opened keeps
its options and the aliases that the manifest had then, until another one is opened, and a pass
finds what they give on the files of the moment. The pages of a pass are kept until the next one,
or until an engine is opened; the questions about them are answered from them alone, whatever
happens to the files, and the index that is made of them is that of a new pass as long as the files
are the same. Words that give no options change nothing, and neither do options with which no
engine can be opened. These are the options without a root when the working directory is gone. -/
theorem run_keeps_engine_and_pages (w : Workspace) (before since : List Step) :
    let past := filesAfter w.tree before
    (∀ words options engine, Options.ofWords words = .ok options →
      Engine.ofOptions past options = .ok engine →
      EachStep (fun t s => s.opens? t = none) past since →
      let now := w.run (before ++ .start words :: since)
      let files := filesAfter w.tree (before ++ since)
      now.engine = some engine ∧ engine.options = options ∧
        engine.aliases = AliasTable.load past engine.root (engine.root.join options.manifest) ∧
        now.answer .pass = .pages (engine.discover files) ∧
        now.answer .site = .site (engine.site (engine.discover files))) ∧
    (∀ engine, (w.run before).engine = some engine →
      EachStep (fun t s => ¬ s.Renews t) past since →
      let pages := engine.discover past
      let now := w.run (before ++ .pass :: since)
      now.engine = some engine ∧ now.pages = pages ∧
        (∀ route, now.answer (.find route) = .page (PageRecord.find? pages route)) ∧
        now.answer .warnings = .warnings (PageRecord.allWarnings pages) ∧
        now.answer .report = .report (Report.ofPages engine.root pages) ∧
        now.answer .storedSite = .site (engine.site pages) ∧
        (filesAfter w.tree (before ++ since) = past →
          now.answer .storedSite = now.answer .site)) ∧
    (∀ s : Step, ¬ s.Renews past → ((w.run before).step s).1.pages = (w.run before).pages) ∧
    (∀ words problem, Options.ofWords words = .error problem →
      (w.run before).step (.start words) = (w.run before, .refused problem)) ∧
    (∀ words options e, Options.ofWords words = .ok options →
      Engine.ofOptions past options = .error e →
      (w.run before).step (.start words) = (w.run before, .failed e)) ∧
    ∀ options e, Engine.ofOptions past options = .error e ↔
      options.root = none ∧ past.currentDir = .error e := by
  intro past
  have here : (w.run before).tree = past := tree_run w before
  have files_now (s : Step) (hs : ∀ t, s.files t = t) :
      (w.run (before ++ s :: since)).tree = filesAfter w.tree (before ++ since) := by
    rw [tree_run, filesAfter_append, filesAfter_append]
    simp only [filesAfter, List.foldl_cons, hs]
  rw [← here]
  refine ⟨?_, ?_, ?_, ?_, ?_, ?_⟩
  · intro words options engine valid opens unopened now files
    have parts : now = (w.run before).run (.start words :: since) := run_append w before _
    have opened : now.engine = some engine := by
      rw [parts]
      exact engine_run_start valid opens unopened
    obtain ⟨root, -, rfl⟩ := Engine.ofOptions_eq_ok_iff.1 opens
    have tree : now.tree = files := files_now (.start words) fun _ => rfl
    refine ⟨opened, rfl, rfl, ?_, ?_⟩
    · simp only [answer, step, opened, tree]
    · simp only [answer, step, opened, tree]
  · intro engine he kept pages now
    have parts : now = (w.run before).run (.pass :: since) := run_append w before _
    obtain ⟨opened, stored⟩ : now.engine = some engine ∧ now.pages = pages := by
      rw [parts]
      exact run_pass he kept
    have tree : now.tree = filesAfter w.tree (before ++ since) := files_now .pass fun _ => rfl
    refine ⟨opened, stored, ?_, ?_, ?_, ?_, ?_⟩
    · intro route
      simp only [answer, step, stored]
    · simp only [answer, step, stored]
    · simp only [answer, step, opened, stored]
    · simp only [answer, step, opened, stored]
    · intro same
      simp only [answer, step, opened, stored, tree, same, pages]
  · intro s hs
    rw [step_fst, Step.pages?_of_not_renews hs]
    rfl
  · intro words problem invalid
    simp only [step, invalid]
  · intro words options e valid fails
    simp only [step, valid, fails]
  · exact fun options e => Engine.ofOptions_eq_error_iff

/-- A project with a page and a manifest that has the aliases of a text. The program stands in the
directory of the page. -/
def aliasedTree (manifest : String) : FileTree :=
  ⟨.dir [("app", .dir [("page.js", .file "export const llmstxt = 'T'".toUTF8)]),
    ("tsconfig.json", .file manifest.toUTF8)], ["app"]⟩

/-- The same project without the page and its directory. -/
def emptiedTree (manifest : String) : FileTree :=
  ⟨.dir [("tsconfig.json", .file manifest.toUTF8)], ["app"]⟩

/-- A manifest with one alias. -/
def oneAlias : String :=
  "\x7b\x22compilerOptions\x22:\x7b\x22paths\x22:\x7b\x22@/*\x22:[\x22src/*\x22]\x7d\x7d\x7d"

/-- The engine on the project with one alias. -/
def aliasedEngine : Engine :=
  ⟨⟨"/"⟩, .atTop, ⟨[⟨"@", ⟨"/src"⟩⟩]⟩⟩

/-- The manifest is emptied, an engine is opened with words that give no options, the directory in
which the program stands is removed, and an engine is opened without a root. -/
def edits : List Step :=
  [.write ⟨"/tsconfig.json"⟩ "\x7b\x7d".toUTF8, .start ["--roots", "/"], .remove ⟨"/app"⟩,
    .start []]

private theorem locate_manifest (manifest : String) :
    (aliasedTree manifest).locate ⟨"/tsconfig.json"⟩ =
      .ok (["tsconfig.json"], .file manifest.toUTF8) := by
  have steps : FileTree.steps ⟨"/tsconfig.json"⟩ = [.root, .name "tsconfig.json"] :=
    rfl
  have nonempty : Path.chars ⟨"/tsconfig.json"⟩ ≠ [] := by decide
  simp [FileTree.locate, steps, nonempty, FileTree.follow, Node.get?, Node.child?, aliasedTree,
    List.lookup_cons]

private theorem ofOptions_aliasedTree :
    Engine.ofOptions (aliasedTree oneAlias) .atTop = .ok aliasedEngine := by
  have joined : (⟨"/"⟩ : Path).join Options.atTop.manifest = ⟨"/tsconfig.json"⟩ :=
    rfl
  have plain : Json.strip oneAlias.toList = oneAlias.toList := rfl
  have tokens : Json.tokens oneAlias.toList =
      some (AliasTable.oneAliasTokens "@/*" "src/*") := by
    simp [oneAlias, AliasTable.oneAliasTokens, Json.tokens, Json.tokens_string, Json.isSpace,
      Json.markToken?, Json.cutString]
  have aliases : AliasTable.ofText ⟨"/"⟩ oneAlias = .ok ⟨[⟨"@", ⟨"/src"⟩⟩]⟩ := by
    rw [AliasTable.ofText_of_oneAliasTokens plain tokens]
    exact congrArg Except.ok rfl
  have found := locate_manifest oneAlias
  have text := FileTree.readText_of_locate found
  rw [Engine.ofOptions_of_root_top rfl]
  simp only [Engine.atRoot, joined, AliasTable.load, FileTree.isFile, found, text, aliases,
    if_true, aliasedEngine]

private theorem write_manifest (old new : String) :
    (aliasedTree old).write ⟨"/tsconfig.json"⟩ new.toUTF8 = aliasedTree new := by
  rw [FileTree.write, locate_manifest]
  rfl

private theorem remove?_app (manifest : String) :
    (aliasedTree manifest).remove? ⟨"/app"⟩ = some (emptiedTree manifest) := by
  have place : (aliasedTree manifest).placeOf (Path.components ⟨"/app"⟩).reverse = ["app"] := by
    have components : Path.components ⟨"/app"⟩ = [.root, .name "app"] := rfl
    rw [components]
    simp [FileTree.placeOf, FileTree.follow, Node.get?, aliasedTree]
  simp only [FileTree.remove?, place]
  rfl

/-- The aliases of an engine and the pages that it found outlast the manifest, the page and the
directory in which the program stands. -/
theorem run_keeps_engine_and_pages_edits :
    let words := ["--root", "/"]
    let tree := aliasedTree oneAlias
    let start := ofTree tree
    let pages := aliasedEngine.discover tree
    let now := start.run ([.start words] ++ .pass :: edits)
    let asked := start.run ([.start words] ++ .pass :: [.report])
    let left := filesAfter tree ([.start words] ++ .pass :: edits)
    Options.ofWords words = .ok .atTop ∧ Options.ofWords [] = .ok .default ∧
      Options.ofWords ["--roots", "/"] = .error (.unknownArgument "--roots") ∧
      Engine.ofOptions tree .atTop = .ok aliasedEngine ∧
      Engine.ofOptions left .default = .error .notFound ∧
      EachStep (fun t s => s.opens? t = none) tree edits ∧
      EachStep (fun t s => ¬ s.Renews t) tree edits ∧
      (start.run ([.start words] ++ .start words :: edits)).engine = some aliasedEngine ∧
      (start.run [.start words]).engine = some aliasedEngine ∧
      now.engine = some aliasedEngine ∧ now.pages = pages ∧
      now.answer .storedSite = .site (aliasedEngine.site pages) ∧
      asked.answer .storedSite = asked.answer .site ∧
      now.step (.start ["--roots", "/"]) = (now, .refused (.unknownArgument "--roots")) ∧
      now.step (.start []) = (now, .failed .notFound) := by
  intro words tree start pages now asked left
  have given : Options.ofWords words = .ok .atTop := rfl
  have bare : Options.ofWords [] = .ok .default := rfl
  have wrong : Options.ofWords ["--roots", "/"] = .error (.unknownArgument "--roots") := rfl
  have opens : Engine.ofOptions tree .atTop = .ok aliasedEngine := ofOptions_aliasedTree
  have closed : Engine.ofOptions (emptiedTree "\x7b\x7d") .default = .error .notFound :=
    Engine.ofOptions_eq_error_iff.2 ⟨rfl, rfl⟩
  have gone : Engine.ofOptions left .default = .error .notFound := by
    have rest : left = emptiedTree "\x7b\x7d" := by
      simp only [left, tree, edits, filesAfter, List.singleton_append, List.foldl_cons,
        List.foldl_nil, Step.files, write_manifest, remove?_app, Option.getD_some]
    rw [rest, closed]
  have kept : EachStep (fun t s => ¬ s.Renews t) tree edits := by
    simp only [EachStep, edits, Step.files, tree, write_manifest, remove?_app, Option.getD_some]
    simp [Step.Renews, Step.opens?, wrong, bare, closed, Except.toOption]
  have unopened : EachStep (fun t s => s.opens? t = none) tree edits :=
    kept.imp fun _ _ => Step.opens?_of_not_renews
  obtain ⟨opened, passed, -⟩ := run_keeps_engine_and_pages start [.start words] edits
  obtain ⟨again, -⟩ := opened words .atTop aliasedEngine given opens unopened
  have first : (start.run [.start words]).engine = some aliasedEngine :=
    engine_run_start given opens trivial
  obtain ⟨still, found, -, -, -, indexed, -⟩ := passed aliasedEngine first kept
  have unchanged : EachStep (fun t s => ¬ s.Renews t) tree [.report] := by
    simp [EachStep, Step.Renews, Step.opens?]
  obtain ⟨-, -, -, -, -, -, fresh⟩ :=
    (run_keeps_engine_and_pages start [.start words] [.report]).2.1 aliasedEngine first unchanged
  obtain ⟨-, -, -, refused, fails, -⟩ :=
    run_keeps_engine_and_pages start ([.start words] ++ .pass :: edits) []
  exact ⟨given, bare, wrong, opens, gone, unopened, kept, again, first, still, found, indexed,
    fresh rfl, refused _ _ wrong, fails _ _ _ bare gone⟩

end Workspace

end PageIndex
