import PageIndex.Proofs.Lookup.Session
import PageIndex.Proofs.Lookup.Wrapping
import PageIndex.Proofs.Members

/-!
# Object literals

The object that an object literal stands for. Only properties with a plain name count whose value
is found, and each value is looked up as if it stood alone. A key that is given more than once has
the place of the first property that gives it and the value of the last one. The main statement is
`lookup_object`, which follows from what is said about entries that are written one after the other
(`mem_ofList_iff`, `pairwise_ofList`).
-/

namespace PageIndex

open Script

/-- Whether a member gives a key a value: it is a property whose name is the key, written plainly,
and the value is that of its expression alone. -/
def Script.Member.Gives (code : Codebase) (trail : Trail) (file : Path) (m : Module) (key : String)
    (v : Json) (member : Member) : Prop :=
  ∃ e, member = .property (.name key) e ∧ code.valueOf trail file m e = some v

/-- Whether a member gives a key any value. -/
def Script.Member.GivesKey (code : Codebase) (trail : Trail) (file : Path) (m : Module)
    (key : String) (member : Member) : Prop :=
  ∃ v, member.Gives code trail file m key v

namespace Codebase

variable {code : Codebase} {trail : Trail} {file : Path} {m : Module} {key : String} {v : Json}
  {member : Member}

/-- A member adds an entry to the object when it gives the key the value. -/
theorem memberValue?_eq_some_iff :
    code.memberValue? trail file m member = some (key, v) ↔
      member.Gives code trail file m key v := by
  rcases member with ⟨name | _ | _ | _, e⟩ | _ | _ | _
  case property.name =>
    simp only [memberValue?, Member.Gives, Option.map_eq_some_iff, Prod.mk.injEq,
      Member.property.injEq, Key.name.injEq]
    constructor
    · rintro ⟨_, found, rfl, rfl⟩
      exact ⟨e, ⟨rfl, rfl⟩, found⟩
    · rintro ⟨_, ⟨rfl, rfl⟩, found⟩
      exact ⟨v, found, rfl, rfl⟩
  all_goals simp [memberValue?, Member.Gives]

/-- A member gives a key when the entry that it adds is one of the key. -/
theorem exists_memberValue?_iff :
    (∃ entry, code.memberValue? trail file m member = some entry ∧ entry.1 = key) ↔
      member.GivesKey code trail file m key := by
  constructor
  · rintro ⟨⟨_, v⟩, given, rfl⟩
    exact ⟨v, memberValue?_eq_some_iff.1 given⟩
  · rintro ⟨v, given⟩
    exact ⟨(key, v), memberValue?_eq_some_iff.2 given, rfl⟩

/-- An object literal stands for an object with each key once. A key is there when a property gives
it, with the value of the last property that does, and the keys stand in the order of the first
properties that give them. What a property gives is what its expression alone gives under the same
trail, also in a session in which the members are looked up one after the other. -/
theorem lookup_object (code : Codebase) (trail : Trail) (file : Path) (m : Module)
    (members : List Member) :
    ∃ entries : List (String × Json),
      code.valueOf trail file m (.object members) = some (.obj entries) ∧
      (Members.names entries).Nodup ∧
      (∀ key, key ∈ Members.names entries ↔
        ∃ member ∈ members, member.GivesKey code trail file m key) ∧
      (∀ key v, (key, v) ∈ entries ↔
        ∃ last, First (·.GivesKey code trail file m key) members.reverse last ∧
          last.Gives code trail file m key v) ∧
      ((Members.names entries).Pairwise fun key other =>
        ∃ first, First (fun member => member.GivesKey code trail file m key ∨
            member.GivesKey code trail file m other) members first ∧
          first.GivesKey code trail file m key) ∧
      Session.Returns (fun room => Session.perform code room (.value file m (.object members)))
        trail (some (.obj entries)) ∧
      ∀ e, Session.Returns (fun room => Session.perform code room (.value file m e)) trail
        (code.valueOf trail file m e) := by
  have whole : code.valueOf trail file m (.object members) =
      some (.obj (Members.ofList (members.filterMap (code.memberValue? trail file m)))) :=
    code.valueOf_object trail file m members
  have returned (e : Expr) := Session.perform_returns code trail (.value file m e)
  refine ⟨_, whole, Members.nodup_names_ofList _, fun key => ?_, fun key v => ?_, ?_,
    whole ▸ returned _, returned⟩
  · rw [Members.mem_names_ofList_iff]
    simp only [List.mem_filterMap, ← exists_memberValue?_iff]
    constructor
    · rintro ⟨entry, ⟨member, hm, given⟩, same⟩
      exact ⟨member, hm, entry, given, same⟩
    · rintro ⟨member, hm, entry, given, same⟩
      exact ⟨entry, ⟨member, hm, given⟩, same⟩
  · rw [Members.mem_ofList_iff, ← List.filterMap_reverse, first_filterMap_iff]
    simp only [exists_memberValue?_iff, memberValue?_eq_some_iff]
  · refine (Members.pairwise_ofList _).imp fun {key other} ⟨entry, first, same⟩ => ?_
    obtain ⟨member, first, given⟩ := first_filterMap_iff.1 first
    refine ⟨member, ?_, exists_memberValue?_iff.1 ⟨entry, given, same⟩⟩
    simpa only [and_or_left, exists_or, exists_memberValue?_iff] using first

end Codebase

end PageIndex
