import Mathlib.Data.List.Basic
import PageIndex.Page.Analysis
import PageIndex.Proofs.Route.Segments

/-!
# Configurations made up from metadata

A configuration that is made up has a title and a description, and neither is empty. Metadata may
give them; what it does not give comes from the route, which must be canonical, because other routes
may have no label. The main statement is `madeUpConfig_complete`.
-/

namespace PageIndex.Page

/-- Whether metadata gives a title: a text, or a group of titles whose default is a text, and the
text is not empty. -/
inductive GivesTitle (metadata : Json) : String → Prop where
  | text {s : String} (given : metadata.get? "title" = some (.str s)) (filled : s ≠ "") :
    GivesTitle metadata s
  | group {members : List (String × Json)} {s : String}
      (given : metadata.get? "title" = some (.obj members))
      (default : members.lookup "default" = some (.str s)) (filled : s ≠ "") :
    GivesTitle metadata s

/-- Whether metadata gives a description: a text that is not empty. -/
def GivesDescription (metadata : Json) (s : String) : Prop :=
  metadata.get? "description" = some (.str s) ∧ s ≠ ""

variable {metadata : Json} {s : String}

/-- Only a text that is not empty counts. -/
theorem nonEmpty?_eq_some_iff {j : Option Json} :
    nonEmpty? j = some s ↔ j = some (.str s) ∧ s ≠ "" := by
  have text : j.bind Json.str? = some s ↔ j = some (.str s) := by
    rcases j with _ | (_ | _ | _ | _ | _ | _ | _) <;> simp [Json.str?]
  rw [nonEmpty?, Option.filter_eq_some_iff, text, decide_eq_true_iff]

/-- The title in metadata is the one that it gives. -/
theorem metadataTitle?_eq_some_iff : metadataTitle? metadata = some s ↔ GivesTitle metadata s := by
  unfold metadataTitle?
  constructor
  · intro h
    split at h
    · next given =>
      obtain ⟨same, filled⟩ := nonEmpty?_eq_some_iff.1 h
      cases same
      exact .text given filled
    · next members given =>
      obtain ⟨default, filled⟩ := nonEmpty?_eq_some_iff.1 h
      exact .group given default filled
    · cases h
  · rintro (⟨given, filled⟩ | ⟨given, default, filled⟩)
    · rw [given]
      exact nonEmpty?_eq_some_iff.2 ⟨rfl, filled⟩
    · rw [given]
      exact nonEmpty?_eq_some_iff.2 ⟨default, filled⟩

/-- What is given stands, and otherwise the alternative. -/
private theorem getD_of_iff (given? : Option String) (Gives : String → Prop)
    (alternative : String) (h : ∀ s, given? = some s ↔ Gives s) :
    Gives (given?.getD alternative) ∨
      (¬ ∃ s, Gives s) ∧ given?.getD alternative = alternative := by
  cases hg : given? with
  | some s => exact .inl ((h s).1 hg)
  | none =>
    refine .inr ⟨?_, rfl⟩
    rintro ⟨s, gives⟩
    rw [(h s).2 gives] at hg
    cases hg

/-- A configuration that is made up for a canonical route has a title and a description, in this
order, and nothing else, and both are texts that are not empty. The title is the one that the
metadata gives or else the label of the route, which is not empty either, and the description is
the one that the metadata gives or else names the route. Nothing else in the metadata matters. -/
theorem madeUpConfig_complete (metadata : Json) (r : String) :
    (∃ title description : String,
      madeUpConfig metadata (Route.normalize r) =
        .obj [("title", .str title), ("description", .str description)] ∧
      title ≠ "" ∧ description ≠ "" ∧
      (GivesTitle metadata title ∨
        (¬ ∃ s, GivesTitle metadata s) ∧ title = Route.label (Route.normalize r)) ∧
      (GivesDescription metadata description ∨
        (¬ ∃ s, GivesDescription metadata s) ∧ description = "Page: " ++ Route.normalize r)) ∧
    Route.label (Route.normalize r) ≠ "" ∧
    ∀ other : Json, (∀ s, GivesTitle other s ↔ GivesTitle metadata s) →
      (∀ s, GivesDescription other s ↔ GivesDescription metadata s) →
      madeUpConfig other (Route.normalize r) = madeUpConfig metadata (Route.normalize r) := by
  have labelled := Route.label_normalize_ne_empty r
  have title := getD_of_iff (metadataTitle? metadata) (GivesTitle metadata)
    (Route.label (Route.normalize r)) fun _ => metadataTitle?_eq_some_iff
  have description := getD_of_iff (nonEmpty? (metadata.get? "description"))
    (GivesDescription metadata) ("Page: " ++ Route.normalize r) fun _ => nonEmpty?_eq_some_iff
  refine ⟨⟨_, _, rfl, ?_, ?_, title, description⟩, labelled, fun other titles descriptions => ?_⟩
  · rcases title with (⟨-, filled⟩ | ⟨-, -, filled⟩) | ⟨-, same⟩
    · exact filled
    · exact filled
    · rw [same]
      exact labelled
  · rcases description with ⟨-, filled⟩ | ⟨-, same⟩
    · exact filled
    · rw [same]
      simp
  · have sameTitle : metadataTitle? other = metadataTitle? metadata := by
      ext s
      rw [metadataTitle?_eq_some_iff, metadataTitle?_eq_some_iff, titles]
    have sameDescription :
        nonEmpty? (other.get? "description") = nonEmpty? (metadata.get? "description") := by
      ext s
      rw [nonEmpty?_eq_some_iff, nonEmpty?_eq_some_iff]
      exact descriptions s
    rw [madeUpConfig, madeUpConfig, sameTitle, sameDescription]

end PageIndex.Page
