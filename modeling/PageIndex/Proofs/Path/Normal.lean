import PageIndex.Proofs.Path.Straight

/-!
# Normal forms of joined paths

The components of a normal form are names below the root, or names after some `..`, and reading
them again changes nothing (`IsStack.foldl_reverse`, `clean_clean`). A relative path adds its
pieces to the components of the path that it is joined to (`foldl_components_join`). So a path can
be brought into normal form before more is joined to it: the normal form of the whole is the same
(`clean_join`). Pieces that do not go up only add names (`exists_names_of_noUp`).
-/

namespace PageIndex

open FileTree (pathOf)

namespace Path

/-- Whether a component is one that can stand inside a path: it goes up or is a name. -/
def IsInner (c : Component) : Prop :=
  c = .up ∨ ∃ s, IsEntryName s ∧ c = .name s

/-- Whether components, the last one first, are those of a normal form. -/
inductive IsStack : List Component → Prop where
  | empty : IsStack []
  | root : IsStack [.root]
  | up {out : List Component} (above : ∀ c ∈ out, c = .up) (below : IsStack out) :
      IsStack (.up :: out)
  | name {s : String} {out : List Component} (h : IsEntryName s) (below : IsStack out) :
      IsStack (.name s :: out)

variable {p q : Path} {names : List String} {out cs : List Component}

section Pieces

/-- The components of pieces inside a path go up or are names. -/
theorem isInner_of_mem_filterMap {text : List Char} {c : Component}
    (h : c ∈ (Text.splitOn '/' text).filterMap inner?) : IsInner c := by
  obtain ⟨piece, hp, hc⟩ := List.mem_filterMap.1 h
  exact inner?_cases (Text.notMem_of_mem_splitOn hp) hc

/-- The components of a text after the slash of the root. -/
theorem components_of_slash {more : List Char} (h : p.chars = '/' :: more) :
    p.components = .root :: (Text.splitOn '/' more).filterMap inner? := by
  have parts : p.pieces = [] :: Text.splitOn '/' more := by
    rw [pieces, h, Text.splitOn, if_pos rfl]
  simp [components, parts, isAbsolute_iff.2 ⟨more, h⟩, first?]

/-- More text after a slash adds the components of its pieces. -/
theorem components_of_append {more : List Char} (filled : p.chars ≠ [])
    (h : q.chars = p.chars ++ '/' :: more) :
    q.components = p.components ++ (Text.splitOn '/' more).filterMap inner? := by
  have absolute : q.isAbsolute = p.isAbsolute := by
    rw [isAbsolute, isAbsolute, h, List.head?_append_of_ne_nil _ filled]
  have parts : q.pieces = p.pieces ++ Text.splitOn '/' more := by
    rw [pieces, h, Text.splitOn_append_cons, pieces]
  obtain ⟨piece, rest, parted⟩ := List.exists_cons_of_ne_nil (Text.splitOn_ne_nil '/' p.chars)
  rw [← pieces] at parted
  simp [components, absolute, parts, parted]

end Pieces

section Stack

/-- A component that goes up or is a name leads from one normal form to another. -/
theorem IsStack.cleanStep {c : Component} (h : IsStack out) (hc : IsInner c) :
    IsStack (cleanStep out c) := by
  rcases hc with rfl | ⟨s, hs, rfl⟩
  · cases h with
    | empty => exact .up (fun _ h => nomatch h) .empty
    | root => exact .root
    | up above below => exact .up (List.forall_mem_cons.2 ⟨rfl, above⟩) (.up above below)
    | name hs below => exact below
  · exact .name hs h

/-- Components that go up or are names lead from one normal form to another. -/
theorem IsStack.foldl (h : IsStack out) (hcs : ∀ c ∈ cs, IsInner c) :
    IsStack (cs.foldl Path.cleanStep out) := by
  induction cs generalizing out with
  | nil => exact h
  | cons c cs ih =>
    rw [List.forall_mem_cons] at hcs
    exact ih (h.cleanStep hcs.1) hcs.2

/-- The components of any path are reduced to those of a normal form. -/
theorem isStack_components (p : Path) : IsStack (p.components.foldl cleanStep []) := by
  obtain ⟨piece, rest, parts⟩ := List.exists_cons_of_ne_nil (Text.splitOn_ne_nil '/' p.chars)
  have inner : ∀ c ∈ rest.filterMap inner?, IsInner c := by
    intro c hc
    apply @isInner_of_mem_filterMap p.chars
    obtain ⟨other, ho, given⟩ := List.mem_filterMap.1 hc
    exact List.mem_filterMap.2 ⟨other, parts ▸ List.mem_cons_of_mem piece ho, given⟩
  have start : IsStack ((first? p.isAbsolute piece).toList.foldl cleanStep []) := by
    rw [first?]
    split
    · exact .root
    · split
      · exact .empty
      · refine IsStack.empty.foldl fun c hc => ?_
        apply @isInner_of_mem_filterMap p.chars
        exact List.mem_filterMap.2 ⟨piece, parts ▸ List.mem_cons_self, by simpa using hc⟩
  have written : p.components = (first? p.isAbsolute piece).toList ++ rest.filterMap inner? := by
    rw [components, pieces, parts]
  rw [written, List.foldl_append]
  exact start.foldl inner

/-- Reading the components of a normal form again leads to the same normal form. -/
theorem IsStack.foldl_reverse (h : IsStack out) : out.reverse.foldl Path.cleanStep [] = out := by
  induction h with
  | empty => rfl
  | root => rfl
  | @up out above below ih =>
    rw [List.reverse_cons, List.foldl_append, ih]
    cases out with
    | nil => rfl
    | cons c rest =>
      rw [above c List.mem_cons_self]
      rfl
  | name h below ih =>
    rw [List.reverse_cons, List.foldl_append, ih]
    rfl

/-- A normal form has the root at its bottom or is made of inner components. -/
theorem IsStack.cases_root (h : IsStack out) :
    (∃ above, out = above ++ [.root] ∧ ∀ c ∈ above, IsInner c) ∨ ∀ c ∈ out, IsInner c := by
  induction h with
  | empty => exact .inr fun _ h => nomatch h
  | root => exact .inl ⟨[], rfl, fun _ h => nomatch h⟩
  | up above _ _ =>
    exact .inr (List.forall_mem_cons.2 ⟨.inl rfl, fun c hc => .inl (above c hc)⟩)
  | name hs _ ih =>
    have named : IsInner (.name _) := .inr ⟨_, hs, rfl⟩
    rcases ih with ⟨above, rfl, inner⟩ | inner
    · exact .inl ⟨_ :: above, rfl, List.forall_mem_cons.2 ⟨named, inner⟩⟩
    · exact .inr (List.forall_mem_cons.2 ⟨named, inner⟩)

end Stack

section Written

/-- The text of an inner component is a piece of it that is not empty. -/
theorem IsInner.toChars {c : Component} (h : IsInner c) :
    '/' ∉ c.toChars ∧ c.toChars ≠ [] ∧ c.toChars ≠ ['.'] ∧ inner? c.toChars = some c := by
  rcases h with rfl | ⟨s, hs, rfl⟩
  · decide
  · obtain ⟨⟨filled, here, -⟩, alone⟩ := isEntryName_iff.1 hs
    exact ⟨alone, filled, here, inner?_toList hs⟩

/-- The pieces of inner components are those components. -/
theorem filterMap_toChars (h : ∀ c ∈ cs, IsInner c) :
    (cs.map Component.toChars).filterMap inner? = cs := by
  have read : ∀ c ∈ cs, (inner? ∘ Component.toChars) c = some c :=
    fun c hc => (h c hc).toChars.2.2.2
  rw [List.filterMap_map, List.filterMap_congr read, List.filterMap_some]

/-- Components below the root are read as they are written. -/
theorem components_ofComponents_root (h : ∀ c ∈ cs, IsInner c) :
    (ofComponents (.root :: cs)).components = .root :: cs := by
  by_cases nothing : cs = []
  · subst nothing
    rfl
  · have text : (ofComponents (.root :: cs)).chars =
        '/' :: Text.joinWith ['/'] (cs.map Component.toChars) := by
      obtain ⟨c, rest, rfl⟩ := List.exists_cons_of_ne_nil nothing
      rw [ofComponents, chars, ofChars, String.toList_ofList]
      · rfl
      · rintro ⟨⟩
    have pieces : Text.splitOn '/' (Text.joinWith ['/'] (cs.map Component.toChars)) =
        cs.map Component.toChars := by
      refine Text.splitOn_joinWith (mt List.map_eq_nil_iff.1 nothing) ?_
      simpa using fun c hc => (h c hc).toChars.1
    rw [components_of_slash text, pieces, filterMap_toChars h]

/-- Components without a root are read as they are written. -/
theorem components_ofComponents (nonempty : cs ≠ []) (h : ∀ c ∈ cs, IsInner c) :
    (ofComponents cs).components = cs := by
  obtain ⟨c, rest, rfl⟩ := List.exists_cons_of_ne_nil nonempty
  obtain ⟨hc, hrest⟩ := List.forall_mem_cons.1 h
  obtain ⟨alone, filled, here, read⟩ := hc.toChars
  have text : (ofComponents (c :: rest)).chars =
      Text.joinWith ['/'] ((c :: rest).map Component.toChars) := by
    rw [ofComponents, chars, ofChars, String.toList_ofList]
    rintro ⟨⟩
    rcases hc with hc | ⟨_, _, hc⟩ <;> cases hc
  have parts : (ofComponents (c :: rest)).pieces = (c :: rest).map Component.toChars := by
    rw [pieces, text]
    refine Text.splitOn_joinWith (by simp) ?_
    simpa using ⟨alone, fun c hc => (hrest c hc).toChars.1⟩
  have relative : (ofComponents (c :: rest)).isAbsolute = false := by
    rw [← Bool.not_eq_true, isAbsolute_iff]
    rintro ⟨more, slash⟩
    rw [pieces, slash, Text.splitOn, if_pos rfl, List.map_cons] at parts
    exact filled (List.cons.inj parts).1.symm
  rw [components, parts, List.map_cons, relative]
  simp [first?, here, read, filterMap_toChars hrest]

end Written

section Clean

/-- The components of a normal form that is not empty are the reduced components of the path. -/
theorem components_clean (p : Path) :
    p.clean.components =
      if cleanComponents p.components = [] then [.here] else cleanComponents p.components := by
  have stack := isStack_components p
  rw [clean]
  split
  · next nothing =>
    rw [if_pos nothing]
    rfl
  · next nonempty =>
    rw [if_neg nonempty]
    rcases stack.cases_root with ⟨above, parts, inner⟩ | inner
    · rw [cleanComponents, parts, List.reverse_append, List.reverse_singleton,
        List.singleton_append]
      exact components_ofComponents_root fun c hc => inner c (List.mem_reverse.1 hc)
    · exact components_ofComponents nonempty fun c hc => inner c (List.mem_reverse.1 hc)

/-- A path and its normal form are reduced to the same components. -/
theorem foldl_components_clean (p : Path) :
    p.clean.components.foldl cleanStep [] = p.components.foldl cleanStep [] := by
  have stack := isStack_components p
  rw [components_clean]
  split
  · next nothing =>
    rw [List.reverse_eq_nil_iff.1 nothing]
    rfl
  · exact stack.foldl_reverse

/-- Paths that are reduced to the same components have one normal form. -/
theorem clean_congr (h : p.components.foldl cleanStep [] = q.components.foldl cleanStep []) :
    p.clean = q.clean := by
  rw [clean, clean, cleanComponents, cleanComponents, h]

/-- The normal form of a path is its own normal form. -/
theorem clean_clean (p : Path) : p.clean.clean = p.clean :=
  clean_congr (foldl_components_clean p)

end Clean

section Join

/-- The text of a path with a relative path joined to it has one slash between the two, but for the
empty path. -/
theorem chars_join (p : Path) (relative : q.isAbsolute = false) :
    (p.chars = [] ∧ (p.join q).chars = q.chars) ∨
      (∃ d, p.chars = d ++ ['/'] ∧ (p.join q).chars = d ++ '/' :: q.chars) ∨
      (p.chars ≠ [] ∧ (p.join q).chars = p.chars ++ '/' :: q.chars) := by
  have appended (s t : String) : chars ⟨s ++ t⟩ = chars ⟨s⟩ ++ chars ⟨t⟩ := String.toList_append
  rw [join, if_neg (by simp [relative])]
  by_cases empty : p.chars = []
  · rw [if_pos (by simp [empty]), appended, empty]
    exact .inl ⟨rfl, rfl⟩
  · by_cases slash : p.chars.getLast? = some '/'
    · obtain ⟨d, ends⟩ := List.getLast?_eq_some_iff.1 slash
      rw [if_pos (by simp [slash]), appended, ends, List.append_assoc]
      exact .inr (.inl ⟨d, rfl, rfl⟩)
    · rw [if_neg (by simp [empty, slash]), appended, appended, List.append_assoc]
      exact .inr (.inr ⟨empty, rfl⟩)

/-- A relative path that is joined to another one adds the components of its pieces, unless it takes
the place of the empty path. -/
theorem components_join (p : Path) (relative : q.isAbsolute = false) :
    p.chars = [] ∧ p.join q = q ∨
      (p.join q).components = p.components ++ q.pieces.filterMap inner? := by
  rw [pieces]
  rcases chars_join p relative with ⟨empty, written⟩ | ⟨d, ends, written⟩ | ⟨filled, written⟩
  · exact .inl ⟨empty, eq_of_chars_eq written⟩
  · right
    by_cases nothing : d = []
    · subst nothing
      rw [components_of_slash (p := p.join q) written, components_of_slash (p := p) ends]
      rfl
    · have filled : (ofChars d).chars ≠ [] := by simpa [chars, ofChars] using nothing
      have before : (ofChars d).chars = d := by simp [chars, ofChars]
      rw [← before] at written ends
      rw [components_of_append filled written, components_of_append (q := p) filled ends]
      simp [Text.splitOn, inner?, isVoidPiece]
  · exact .inr (components_of_append filled written)

/-- A relative path adds the components of its pieces to what the path before it is reduced to. -/
theorem foldl_components_join (p : Path) (relative : q.isAbsolute = false) :
    (p.join q).components.foldl cleanStep [] =
      (q.pieces.filterMap inner?).foldl cleanStep (p.components.foldl cleanStep []) := by
  rcases components_join p relative with ⟨empty, start⟩ | added
  · obtain rfl : p = ⟨""⟩ := eq_of_chars_eq empty
    obtain ⟨piece, rest, parts⟩ := List.exists_cons_of_ne_nil (Text.splitOn_ne_nil '/' q.chars)
    have blank : components ⟨""⟩ = [] := rfl
    rw [start, blank, components, pieces, parts, relative, List.filterMap_cons]
    -- A first piece that is a point leaves no trace, whether or not it counts as a component.
    by_cases here : piece = ['.']
    · subst here
      rfl
    · simp only [first?, here, if_false, Bool.false_eq_true]
      cases inner? piece <;> rfl
  · rw [added, List.foldl_append]

/-- More can be joined to the normal form of a path as well as to the path itself: the whole has the
same normal form. -/
theorem clean_join (p q : Path) : (p.clean.join q).clean = (p.join q).clean := by
  cases relative : q.isAbsolute with
  | true => rw [join, join, if_pos relative, if_pos relative]
  | false =>
    apply clean_congr
    rw [foldl_components_join _ relative, foldl_components_join _ relative, foldl_components_clean]

/-- A text in which no piece goes up has names as its components. -/
theorem exists_names_of_noUp {text : List Char} (noUp : ['.', '.'] ∉ Text.splitOn '/' text) :
    ∃ more : List String, (∀ n ∈ more, IsEntryName n) ∧
      (Text.splitOn '/' text).filterMap inner? = more.map .name := by
  have named : ∀ c ∈ (Text.splitOn '/' text).filterMap inner?,
      ∃ s, IsEntryName s ∧ c = .name s := by
    intro c hc
    obtain ⟨piece, hp, given⟩ := List.mem_filterMap.1 hc
    refine (isInner_of_mem_filterMap hc).resolve_left ?_
    rintro rfl
    rw [inner?] at given
    split at given
    · cases given
    · split at given
      · next up => exact noUp (up ▸ hp)
      · cases given
  generalize (Text.splitOn '/' text).filterMap inner? = cs at named
  induction cs with
  | nil => exact ⟨[], by simp, rfl⟩
  | cons c cs ih =>
    rw [List.forall_mem_cons] at named
    obtain ⟨⟨s, hs, rfl⟩, others⟩ := named
    obtain ⟨more, hm, rfl⟩ := ih others
    exact ⟨s :: more, List.forall_mem_cons.2 ⟨hs, hm⟩, rfl⟩

/-- The normal form of an absolute path has the reduced components. -/
theorem components_clean_of_absolute (absolute : p.isAbsolute = true) :
    p.clean.components = cleanComponents p.components := by
  obtain ⟨names, hn, cleaned⟩ := isRooted_clean absolute
  have parts := components_clean p
  split at parts
  · rw [cleaned, components_pathOf hn] at parts
    cases (List.cons.inj parts).1
  · exact parts

/-- Rooted paths with the same components are the same. -/
theorem IsRooted.eq_of_components (hp : p.IsRooted) (hq : q.IsRooted)
    (h : p.components = q.components) : p = q := by
  obtain ⟨names, hn, rfl⟩ := hp
  obtain ⟨more, hm, rfl⟩ := hq
  rw [components_pathOf hn, components_pathOf hm] at h
  have injective : Function.Injective Component.name := fun _ _ same => Component.name.inj same
  rw [injective.list_map (List.cons.inj h).2]

end Join

end Path

end PageIndex
