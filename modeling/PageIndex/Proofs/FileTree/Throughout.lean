import PageIndex.FileTree.Basic

/-!
# What holds of every directory

A property of the names in a directory may hold of every directory at and below an entry
(`Throughout`). It then holds of what names lead to (`Throughout.get?`). Changes of a tree keep it
(`Throughout.put`, `Throughout.putDir`, `Throughout.erase`) if it stays when names are left out and
when a new one is added at the end (`IsHereditary`).
-/

namespace PageIndex.Node

/-- Whether the names of each directory at and below an entry have a property. -/
inductive Throughout (P : List String → Prop) : Node → Prop where
  | file (content : ByteArray) : Throughout P (.file content)
  | link (target : Path) : Throughout P (.link target)
  | dir {entries : List (String × Node)} (here : P (Members.names entries))
    (below : ∀ e ∈ entries, Throughout P e.2) : Throughout P (.dir entries)

/-- Whether a property of the names in a directory stays when some of them are left out, and when a
new one is added that may be added. -/
structure IsHereditary (P : List String → Prop) (mayAdd : String → Prop) : Prop where
  empty : P []
  fewer : ∀ {names others : List String}, others.Sublist names → P names → P others
  further : ∀ {names : List String} {name : String}, P names → mayAdd name → name ∉ names →
    P (names ++ [name])

namespace Throughout

variable {P : List String → Prop} {mayAdd : String → Prop} {n new c : Node} {name : String}
  {names : List String}

/-- What holds of a directory holds of its entries. -/
theorem child? (h : n.Throughout P) (hc : n.child? name = some c) : c.Throughout P := by
  cases h with
  | file content => cases hc
  | link target => cases hc
  | dir here below => exact below _ (Members.mem_of_lookup hc)

/-- What holds of a directory holds of what names lead to from it. -/
theorem get? (h : n.Throughout P) (hc : n.get? names = some c) : c.Throughout P := by
  induction names generalizing n with
  | nil =>
    cases hc
    exact h
  | cons name rest ih =>
    rw [Node.get?] at hc
    cases hn : n.child? name with
    | none =>
      rw [hn] at hc
      cases hc
    | some next =>
      rw [hn] at hc
      exact ih (h.child? hn) hc

section Changes

variable (hereditary : IsHereditary P mayAdd)

include hereditary

private theorem entries (h : n.Throughout P) :
    P (Members.names n.entries) ∧ ∀ e ∈ n.entries, e.2.Throughout P := by
  cases h with
  | file content => exact ⟨hereditary.empty, nofun⟩
  | link target => exact ⟨hereditary.empty, nofun⟩
  | dir here below => exact ⟨here, below⟩

private theorem write_entries (h : n.Throughout P)
    (hname : name ∉ Members.names n.entries → mayAdd name) (hnew : new.Throughout P) :
    (Node.dir (Members.write name new n.entries)).Throughout P := by
  obtain ⟨here, below⟩ := h.entries hereditary
  constructor
  · rw [Members.names_write]
    split
    · exact here
    · next fresh => exact hereditary.further here (hname fresh) fresh
  · intro e he
    rcases Members.eq_or_mem_of_mem_write he with same | old
    · exact same ▸ hnew
    · exact below _ old

private theorem childOrEmpty (h : n.Throughout P) (name : String) :
    ((n.child? name).getD (.dir [])).Throughout P := by
  cases hc : n.child? name with
  | none => exact .dir hereditary.empty nofun
  | some c => exact h.child? hc

/-- Putting an entry into a tree adds names that lead to it. -/
theorem put (h : n.Throughout P) (hnew : new.Throughout P) (hnames : ∀ name ∈ names, mayAdd name) :
    (Node.put new names n).Throughout P := by
  induction names generalizing n with
  | nil => exact hnew
  | cons name rest ih =>
    obtain ⟨first, others⟩ := List.forall_mem_cons.1 hnames
    exact h.write_entries hereditary (fun _ => first)
      (ih (h.childOrEmpty hereditary name) others)

/-- Putting a directory into a tree adds names that lead to it. -/
theorem putDir (h : n.Throughout P) (hnames : ∀ name ∈ names, mayAdd name) :
    (n.putDir names).Throughout P := by
  induction names generalizing n with
  | nil =>
    cases h with
    | dir here below => exact .dir here below
    | _ => exact .dir hereditary.empty nofun
  | cons name rest ih =>
    obtain ⟨first, others⟩ := List.forall_mem_cons.1 hnames
    exact h.write_entries hereditary (fun _ => first)
      (ih (h.childOrEmpty hereditary name) others)

/-- Erasing an entry of a tree leaves names out. -/
theorem erase (h : n.Throughout P) (names : List String) : (n.erase names).Throughout P := by
  induction names generalizing n with
  | nil => exact h
  | cons name rest ih =>
    cases rest with
    | nil =>
      cases h with
      | dir here below =>
        exact .dir (hereditary.fewer (List.filter_sublist.map _) here)
          fun e he => below e (List.mem_filter.1 he).1
      | file content => exact .file content
      | link target => exact .link target
    | cons next others =>
      rw [Node.erase]
      split
      · exact h
      · next c hc =>
        -- The name is there already, so nothing is added.
        refine h.write_entries hereditary (fun fresh => absurd ?_ fresh) (ih (h.child? hc))
        cases n with
        | dir entries => exact List.mem_map_of_mem (Members.mem_of_lookup hc)
        | _ => cases hc

end Changes

end Throughout

end PageIndex.Node
