import PageIndex.Path.Clean

/-!
# Path aliases

A table of substitutions for the beginnings of import requests: a request that starts with the
key of an entry stands for a path inside the entry's directory. The entries are tried in their
order, and one request may match several of them.
-/

namespace PageIndex

/-- A substitution: the beginning of a request and the directory that it stands for. -/
structure AliasEntry where
  key : String
  directory : Path
deriving DecidableEq, Repr

/-- The path that an entry gives to a request, if the request starts with its key. Slashes after
the key are skipped, so that what follows is never taken for an absolute path. -/
def AliasEntry.candidate? (e : AliasEntry) (request : String) : Option Path :=
  (Text.dropStart? e.key.toList request.toList).map fun rest =>
    let rest := rest.dropWhile (· == '/')
    if rest.isEmpty then e.directory else (e.directory.join (Path.ofChars rest)).clean

/-- The substitutions of a project, in their order (`PathAliasTable`). -/
structure AliasTable where
  entries : List AliasEntry
deriving DecidableEq, Repr, Inhabited

namespace AliasTable

/-- The table without substitutions. -/
def empty : AliasTable :=
  ⟨[]⟩

/-- The number of entries (`PathAliasTable::len`). -/
def size (t : AliasTable) : Nat :=
  t.entries.length

/-- Whether the table has no entry (`PathAliasTable::is_empty`). -/
def isEmpty (t : AliasTable) : Bool :=
  t.entries.isEmpty

/-- The paths that a request may stand for, one for each matching entry, in table order
(`PathAliasTable::candidates`). -/
def candidates (t : AliasTable) (request : String) : List Path :=
  t.entries.filterMap (·.candidate? request)

end AliasTable

end PageIndex
