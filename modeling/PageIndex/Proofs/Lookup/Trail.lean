import PageIndex.Proofs.Lookup.Plain
import PageIndex.Proofs.Lookup.Session

/-!
# The trail of a lookup

What stands on the trail while a lookup is under way that began with an empty one. Each visit
stands there once, only so many files were entered, and the names that are looked for are those of
the file that was entered last, which is the one that is being searched. The main statement is
`lookup_keeps_trail_sound`. It says this of every moment, and that the trail refuses a further
question only for what stands on it or for the files that were entered.

One step keeps the trail sound (`sound_of_mem_calls`), and therefore a whole run does
(`sound_of_leadsTo`). That these are the moments of the lookup as it is carried out is said by
a session that is watched: it has no outcome once a check refuses a call.
-/

namespace PageIndex

open Script

namespace Trail

/-- The file that is searched under a trail: the one that was entered last, or the one in which the
lookup began. -/
def searched (start : Path) (t : Trail) : Path :=
  ((t.find? (·.sought.isExported)).map (·.file)).getD start

/-- A trail as it is at every moment of a lookup that begins in the file `start`. -/
structure Sound (start : Path) (t : Trail) : Prop where
  /-- No two visits are the same. -/
  distinct : t.Pairwise fun v w => v.same w = false
  /-- Not too many files were entered. -/
  hops_le : t.hops ≤ 32
  /-- A name is looked for in the file that is searched under the visits before it. -/
  within : ∀ above v below, t = above ++ v :: below → v.sought.isExported = false →
    v.file = searched start below

variable {start : Path} {t : Trail} {v : Visit}

/-- An empty trail is sound. -/
theorem Sound.nil : Sound start [] where
  distinct := .nil
  hops_le := by decide
  within above v below h := by simp at h

/-- Once a file is entered it is searched. -/
theorem searched_cons_of_exported (h : v.sought.isExported = true) :
    searched start (v :: t) = v.file := by
  simp [searched, h]

/-- The file that is searched stays the same while a name is looked for. -/
theorem searched_cons_of_binding (h : v.sought.isExported = false) :
    searched start (v :: t) = searched start t := by
  simp [searched, h]

/-- A sound trail stays so with a visit that it admits, if that looks for a name in the file that
is searched, or enters a file. -/
theorem Sound.cons (h : Sound start t) (admitted : t.admits v = true)
    (here : v.sought.isExported = false → v.file = searched start t) : Sound start (v :: t) := by
  obtain ⟨room, unseen⟩ := admits_iff.1 admitted
  refine ⟨?_, ?_, ?_⟩
  · refine List.pairwise_cons.2 ⟨fun w hw => ?_, h.distinct⟩
    exact Bool.eq_false_iff.2 (List.any_eq_false.1 unseen w hw)
  · rw [hops_cons]
    split
    next exported => exact room exported
    next => exact h.hops_le
  · intro above w below parts isName
    cases above with
    | nil =>
      obtain ⟨rfl, rfl⟩ := List.cons.inj parts
      exact here isName
    | cons _ above =>
      obtain ⟨-, parts⟩ := List.cons.inj parts
      exact h.within above w below parts isName

/-- A sound trail refuses a visit when the same one stands on it already, or when the visit enters a
file and as many were entered as may be. -/
theorem Sound.admits_eq_false_iff (h : Sound start t) :
    t.admits v = false ↔
      (∃ w ∈ t, w.same v = true) ∨ v.sought.isExported = true ∧ t.hops = 32 := by
  have full : hopLimit ≤ t.hops ↔ t.hops = 32 :=
    ⟨fun le => Nat.le_antisymm h.hops_le le, fun eq => Nat.le_of_eq eq.symm⟩
  have seen : t.holds v = true ↔ ∃ w ∈ t, w.same v = true := by
    simp only [holds, List.any_eq_true, Visit.same_comm v]
  rw [admits, ← full, ← seen]
  cases v.sought.isExported <;> cases t.holds v <;> simp

end Trail

/-- A call is made under a sound trail, and its question is about the file that is searched. -/
structure Call.Sound (start : Path) (c : Call) : Prop where
  trail : c.trail.Sound start
  file : c.query.file = c.trail.searched start

namespace Codebase

/-- What a lookup is about at some moment after a call, its trail and the file that is searched: a
further call is made, or what that call looks for goes onto the trail. -/
inductive Moment (code : Codebase) (c : Call) : Trail → Path → Prop where
  | called {d : Call} (made : code.LeadsTo c d) : Moment code c d.trail d.query.file
  | entered {d : Call} {v : Visit} (made : code.LeadsTo c d) (looks : code.visit? d.query = some v)
      (admitted : d.trail.admits v = true) : Moment code c (v :: d.trail) v.file

variable {code : Codebase} {start : Path} {c d : Call}

/-- A name is looked for in the file of the question. -/
theorem file_of_visit?_binding {q : Query} {v : Visit} (looks : code.visit? q = some v)
    (isName : v.sought.isExported = false) : v.file = q.file := by
  cases q with
  | value file m e => cases looks
  | exported file m name => cases looks
  | binding file m name =>
    cases looks
    rfl
  | imported file request name =>
    obtain ⟨target, -, rfl⟩ := Option.map_eq_some_iff.1 looks
    cases isName

/-- What a sound call looks for is admitted to its trail unless it stands there, or enters a file
and as many were entered as may be. -/
theorem enter?_eq_none_iff (h : c.Sound start) :
    code.enter? c.trail c.query = none ↔ ∃ v, code.visit? c.query = some v ∧
      ((∃ w ∈ c.trail, w.same v = true) ∨ v.sought.isExported = true ∧ c.trail.hops = 32) := by
  cases looks : code.visit? c.query with
  | none => simp [enter?_of_visit?_eq_none looks]
  | some v =>
    rw [enter?_of_visit?_eq_some looks, ite_eq_right_iff]
    simp only [reduceCtorEq, imp_false, Bool.not_eq_true, h.trail.admits_eq_false_iff,
      Option.some.injEq, exists_eq_left']

/-- What a sound call looks for leaves the trail sound, and is looked for in the file that is
searched then. -/
theorem sound_cons (h : c.Sound start) {v : Visit} (looks : code.visit? c.query = some v)
    (admitted : c.trail.admits v = true) :
    Trail.Sound start (v :: c.trail) ∧ v.file = Trail.searched start (v :: c.trail) := by
  have here (isName : v.sought.isExported = false) : v.file = c.trail.searched start :=
    (file_of_visit?_binding looks isName).trans h.file
  refine ⟨h.trail.cons admitted here, ?_⟩
  cases kind : v.sought.isExported with
  | true => exact (Trail.searched_cons_of_exported kind).symm
  | false => exact (here kind).trans (Trail.searched_cons_of_binding kind).symm

private theorem file_of_asked {q r : Query} {ask : Query → Option Json}
    (asked : r ∈ (code.plan q).asked ask) :
    r.file = match code.visit? q with
      | some v => v.file
      | none => q.file := by
  cases q with
  | imported file request name =>
    obtain ⟨target, m, leads, -, rfl⟩ := mem_asked_imported asked
    rw [visit?, leads]
    rfl
  | value file m e => exact file_of_mem_asked rfl asked
  | binding file m name => exact file_of_mem_asked rfl asked
  | exported file m name => exact file_of_mem_asked rfl asked

/-- A sound call makes sound calls. -/
theorem sound_of_mem_calls (h : c.Sound start) (made : d ∈ code.calls c) : d.Sound start := by
  obtain ⟨trail, r⟩ := d
  obtain ⟨entered, asked⟩ := mem_calls_iff.1 made
  have about := file_of_asked asked
  obtain ⟨looks, rfl⟩ | ⟨v, looks, admitted, rfl⟩ := enter?_eq_some_iff.1 entered
  · rw [looks] at about
    exact ⟨h.trail, about.trans h.file⟩
  · rw [looks] at about
    obtain ⟨sound, file⟩ := sound_cons h looks admitted
    exact ⟨sound, about.trans file⟩

/-- A sound call leads to sound calls only. -/
theorem sound_of_leadsTo (h : c.Sound start) (leads : code.LeadsTo c d) : d.Sound start := by
  induction leads with
  | refl => exact h
  | tail _ made ih => exact sound_of_mem_calls ih made

/-- At every moment after a sound call the trail is sound, and the file of the moment is the one
that is searched. -/
theorem Moment.sound (h : c.Sound start) {t : Trail} {p : Path} (moment : code.Moment c t p) :
    t.Sound start ∧ p = t.searched start := by
  cases moment with
  | called made =>
    obtain ⟨trail, file⟩ := sound_of_leadsTo h made
    exact ⟨trail, file⟩
  | entered made looks admitted => exact sound_cons (sound_of_leadsTo h made) looks admitted

end Codebase

namespace Session

/-- Carries out a call as `perform` does, and has no outcome once the check refuses a call. -/
def watched (code : Codebase) (check : Call → Bool) :
    (room : Nat) → Query → Session (Option Json)
  | 0, _ => fun _ => none
  | room + 1, q => fun s =>
    if check ⟨s.trail, q⟩ = true then
      (do
        count
        step code (watched code check room) q) s
    else none

/-- A watched session has the outcome of one that is not watched if the check refuses no call. -/
theorem watched_returns {code : Codebase} {check : Call → Bool} {trail : Trail} {q : Query}
    (h : ∀ d, code.LeadsTo ⟨trail, q⟩ d → check d = true) :
    Returns (fun room => watched code check room q) trail (code.answer trail q) := by
  induction made : (⟨trail, q⟩ : Call) using code.calls_wellFounded.induction
    generalizing trail q with
  | _ c ih =>
    subst made
    have passes : check ⟨trail, q⟩ = true := h _ .refl
    refine returns_counted (fun _ => rfl) (fun _ _ => if_pos passes) (step_returns ?_)
    intro inner entered r asked
    have next : (⟨inner, r⟩ : Call) ∈ code.calls ⟨trail, q⟩ :=
      Codebase.mem_calls_iff.2 ⟨entered, asked⟩
    exact ih ⟨inner, r⟩ next (fun d leads => h d (.head next leads)) rfl

end Session

namespace Codebase

/-- The trail of every lookup of an export or a name that begins with an empty trail. At each moment
no visit stands on it twice, at most 32 files were entered, each name is looked for in the file that
was entered last before it, and the file that was entered last is searched. A further question is
refused only when its visit stands on the trail, or enters a file and 32 were entered. A session
that has no outcome once a call is made under another trail or about another file returns the same
answer. -/
theorem lookup_keeps_trail_sound (code : Codebase) (file : Path) (m : Module) (name : String)
    {q : Query} (hq : q = .exported file m name ∨ q = .binding file m name) :
    (∀ t p, code.Moment ⟨[], q⟩ t p → t.Sound file ∧ p = t.searched file) ∧
    (∀ d, code.LeadsTo ⟨[], q⟩ d → (code.enter? d.trail d.query = none ↔
      ∃ v, code.visit? d.query = some v ∧ ((∃ w ∈ d.trail, w.same v = true) ∨
        v.sought.isExported = true ∧ d.trail.hops = 32))) ∧
    ∀ check : Call → Bool, (∀ d, d.Sound file → check d = true) →
      Session.Returns (fun room => Session.watched code check room q) [] (code.answer [] q) := by
  have start : Call.Sound file ⟨[], q⟩ := by
    rcases hq with rfl | rfl <;> exact ⟨.nil, rfl⟩
  refine ⟨fun t p moment => moment.sound start, fun d leads => ?_, fun check passes => ?_⟩
  · exact enter?_eq_none_iff (sound_of_leadsTo start leads)
  · exact Session.watched_returns fun d leads => passes d (sound_of_leadsTo start leads)

/-- A module that imports a name and exports it again. -/
def echoModule : Module :=
  ⟨[.importFrom "./a" [.named "x" "x"], .exportNames none [⟨"x", "x"⟩]]⟩

/-- A codebase in which the module imports from itself. -/
def echoCode : Codebase where
  module? _ := some echoModule
  target? importer _ := some importer

/-- A name that is exported by way of itself is refused the second time, since it stands on the
trail. -/
theorem lookup_keeps_trail_sound_echo :
    let file : Path := ⟨"/a.ts"⟩
    let start : Query := .exported file echoModule "x"
    let again : Call :=
      ⟨[⟨file, .exported "x"⟩, ⟨file, .binding "x"⟩], .binding file echoModule "x"⟩
    (start = .exported file echoModule "x" ∨ start = .binding file echoModule "x") ∧
      echoCode.LeadsTo ⟨[], start⟩ again ∧ again.trail.Sound file ∧
      file = again.trail.searched file ∧ echoCode.enter? again.trail again.query = none ∧
      Session.Returns
        (fun room => Session.watched echoCode (fun d => d.trail.hops ≤ 32) room start) []
        (echoCode.answer [] start) := by
  intro file start again
  let first : Call := ⟨[], .binding file echoModule "x"⟩
  let ask : Call := ⟨[⟨file, .binding "x"⟩], .imported file "./a" "x"⟩
  let found : Call := ⟨again.trail, .exported file echoModule "x"⟩
  have to_first : first ∈ echoCode.calls ⟨[], start⟩ := mem_calls_of_first rfl rfl
  have to_ask : ask ∈ echoCode.calls first := mem_calls_of_first rfl rfl
  have entered : echoCode.enter? ask.trail ask.query = some again.trail := by
    rw [enter?_of_visit?_eq_some (v := ⟨file, .exported "x"⟩) rfl]
    exact if_pos (by decide)
  have to_found : found ∈ echoCode.calls ask := mem_calls_of_first entered rfl
  have to_again : again ∈ echoCode.calls found := mem_calls_of_first rfl rfl
  have leads : echoCode.LeadsTo ⟨[], start⟩ again :=
    .tail (.tail (.tail (.single to_first) to_ask) to_found) to_again
  obtain ⟨sound, refused, watched⟩ :=
    lookup_keeps_trail_sound echoCode file echoModule "x" (q := start) (.inl rfl)
  obtain ⟨trail, searched⟩ := sound _ _ (.called leads)
  refine ⟨.inl rfl, leads, trail, searched, (refused again leads).2 ?_, watched _ fun d h => ?_⟩
  · exact ⟨_, rfl, .inl ⟨⟨file, .binding "x"⟩, by decide, by decide⟩⟩
  · exact decide_eq_true h.trail.hops_le

end Codebase

end PageIndex
