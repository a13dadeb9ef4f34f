import PageIndex.Text.Split

/-!
# Paths

A path is a text with slashes. It is kept as it was written; what it means is the list of its
components, in which doubled slashes, trailing slashes and inner `.` pieces leave no trace. Two
paths with the same components are spellings of one path.
-/

namespace PageIndex

/-- A path as it was written. -/
structure Path where
  text : String
deriving DecidableEq, Repr, Inhabited

namespace Path

/-- A part of a path. -/
inductive Component where
  /-- The slash at the start of an absolute path. -/
  | root
  /-- A `.` at the start of a relative path. -/
  | here
  /-- A `..`. -/
  | up
  | name (s : String)
deriving DecidableEq, Repr

/-- The path with the given characters. -/
def ofChars (cs : List Char) : Path :=
  ⟨String.ofList cs⟩

/-- The characters of a path. -/
def chars (p : Path) : List Char :=
  p.text.toList

/-- Whether the path starts with a slash. -/
def isAbsolute (p : Path) : Bool :=
  p.chars.head? == some '/'

/-- The pieces between the slashes of a path. -/
def pieces (p : Path) : List (List Char) :=
  Text.splitOn '/' p.chars

/-- A piece that leaves no trace inside a path. -/
def isVoidPiece (piece : List Char) : Bool :=
  piece == [] || piece == ['.']

/-- The component of a piece that does not stand at the start of a path. -/
def inner? (piece : List Char) : Option Component :=
  if isVoidPiece piece then none
  else if piece = ['.', '.'] then some .up
  else some (.name (String.ofList piece))

/-- The component of the piece at the start of a path, where `absolute` says whether a slash
follows an empty piece. -/
def first? (absolute : Bool) (piece : List Char) : Option Component :=
  if absolute then some .root
  else if piece = ['.'] then some .here
  else inner? piece

/-- The components of a path. -/
def components (p : Path) : List Component :=
  match p.pieces with
  | [] => []
  | piece :: rest => (first? p.isAbsolute piece).toList ++ rest.filterMap inner?

/-- The text of one component. -/
def Component.toChars : Component → List Char
  | .root => []
  | .here => ['.']
  | .up => ['.', '.']
  | .name s => s.toList

/-- The path with the given components, written without anything superfluous. -/
def ofComponents : List Component → Path
  | [.root] => ofChars ['/']
  | cs => ofChars (Text.joinWith ['/'] (cs.map Component.toChars))

/-- The path `q` as seen from the directory `p`. An absolute path stays itself. -/
def join (p q : Path) : Path :=
  if q.isAbsolute then q
  else if p.chars.isEmpty || p.chars.getLast? == some '/' then ⟨p.text ++ q.text⟩
  else ⟨p.text ++ "/" ++ q.text⟩

/-- The path of the entry `name` of the directory `p`. -/
def child (p : Path) (name : String) : Path :=
  p.join ⟨name⟩

/-- The directory a path stands in; the root and the empty path stand in none. -/
def parent? (p : Path) : Option Path :=
  match p.components.reverse with
  | [] => none
  | .root :: _ => none
  | _ :: rest => some (ofComponents rest.reverse)

/-- The path with more text at its end. -/
def withSuffix (p : Path) (suffix : String) : Path :=
  ⟨p.text ++ suffix⟩

/-- The last component, if it is a name. -/
def fileName? (p : Path) : Option String :=
  match p.components.getLast? with
  | some (.name s) => some s
  | _ => none

/-- A file name cut at its last point. A point at the very start does not count. -/
def cutExtension (name : List Char) : List Char × Option (List Char) :=
  match (Text.splitOn '.' name).reverse with
  | ext :: piece :: before =>
    let stem := Text.joinWith ['.'] (piece :: before).reverse
    if stem.isEmpty then (name, none) else (stem, some ext)
  | _ => (name, none)

/-- A file name has a stem and an extension when a point stands between them, no point is in the
extension, and the stem is not empty. -/
theorem cutExtension_eq_some_iff {name stem ext : List Char} :
    cutExtension name = (stem, some ext) ↔ name = stem ++ '.' :: ext ∧ '.' ∉ ext ∧ stem ≠ [] := by
  constructor
  · intro h
    rw [cutExtension] at h
    split at h
    · next last piece before hp =>
      have pieces : Text.splitOn '.' name = (piece :: before).reverse ++ [last] := by
        rw [← List.reverse_cons, ← hp, List.reverse_reverse]
      have joined := Text.joinWith_splitOn '.' name
      rw [pieces, Text.joinWith_append_singleton _ (by simp)] at joined
      dsimp only at h
      split at h
      · cases h
      · next filled =>
        cases h
        refine ⟨by simpa using joined.symm, ?_, by simpa using filled⟩
        exact Text.notMem_of_mem_splitOn (s := name) (by rw [pieces]; simp)
    · cases h
  · rintro ⟨rfl, alone, filled⟩
    have pieces : (Text.splitOn '.' (stem ++ '.' :: ext)).reverse =
        ext :: (Text.splitOn '.' stem).reverse := by
      rw [Text.splitOn_append_cons, Text.splitOn_of_notMem alone, List.reverse_append]
      rfl
    cases hs : (Text.splitOn '.' stem).reverse with
    | nil => exact absurd (List.reverse_eq_nil_iff.1 hs) (Text.splitOn_ne_nil '.' stem)
    | cons piece before =>
      have whole : Text.joinWith ['.'] (piece :: before).reverse = stem := by
        rw [← hs, List.reverse_reverse, Text.joinWith_splitOn]
      rw [hs] at pieces
      simp only [cutExtension, pieces, whole]
      simp [filled]

/-- The part of a file name before its extension. -/
def stemOf (name : String) : String :=
  String.ofList (cutExtension name.toList).1

/-- The extension of a file name, without the point. -/
def extensionOf? (name : String) : Option String :=
  (cutExtension name.toList).2.map String.ofList

/-- The extension of the last component. -/
def extension? (p : Path) : Option String :=
  p.fileName?.bind extensionOf?

/-- Drops the first `n` components from the pieces that follow the start of a path. -/
def dropInner : Nat → List (List Char) → List (List Char)
  | 0, pieces => pieces
  | _, [] => []
  | n + 1, piece :: rest => dropInner (if isVoidPiece piece then n + 1 else n) rest

/-- Drops void pieces from the end. -/
def trimVoidEnd (pieces : List (List Char)) : List (List Char) :=
  (pieces.reverse.dropWhile isVoidPiece).reverse

/-- What is left of a path after its first `n` components, without void pieces at the ends. -/
def tail (p : Path) : Nat → Path
  | 0 =>
    match p.pieces with
    | [] => p
    | piece :: rest =>
      match trimVoidEnd rest with
      | [] => if p.isAbsolute then ofChars ['/'] else ofChars piece
      | kept => ofChars (Text.joinWith ['/'] (piece :: kept))
  | n + 1 =>
    let rest :=
      match p.pieces with
      | [] => []
      | piece :: rest =>
        if (first? p.isAbsolute piece).isSome then dropInner n rest else dropInner (n + 1) rest
    ofChars (Text.joinWith ['/'] (trimVoidEnd (rest.dropWhile isVoidPiece)))

/-- The rest of a path that begins with the components of `base`. -/
def relativeTo? (p base : Path) : Option Path :=
  if base.components.isPrefixOf p.components then some (p.tail base.components.length) else none

/-- The path as seen from `base` when it lies under it, and in full otherwise. -/
def display (p base : Path) : String :=
  ((p.relativeTo? base).getD p).text

end Path

end PageIndex
