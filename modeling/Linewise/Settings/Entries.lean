import Linewise.Settings.Scalar

/-!
# Entries

What several sources say about the settings, as one list: the names that lead to a value, and the
value. A later source overrides an earlier one, also where one of them takes for a value what is a
section for the other, so of two entries neither lies below the other.

* `Entries.apart_assign`: it stays so.
-/

namespace Linewise

/-- The names that lead to a value, outermost first. They are in lower case. -/
abbrev Path := List String

namespace Path

/-- A character of a name. -/
def isNameChar (c : Char) : Bool := c.isAlphanum || c = ' ' || c = '_' || c = '-'

/-- The path that a text spells: names with dots between them. -/
def ofText? (text : String) : Option Path :=
  let names := text.splitOn "."
  if names.all fun name => !name.isEmpty && name.all isNameChar then
    some (names.map String.toLower)
  else none

/-- The path that a text spells, or the text as the only name. -/
def ofText (text : String) : Path :=
  (ofText? text).getD [text.toLower]

/-- One path leads through the other one. -/
def meets (p q : Path) : Bool := p.isPrefixOf q || q.isPrefixOf p

end Path

/-- What sources have said about settings. -/
abbrev Entries := List (Path × Scalar)

namespace Entries

/-- The entries after one more has been made, in place of all that it meets. -/
def assign (entries : Entries) (path : Path) (value : Scalar) : Entries :=
  entries.filter (fun entry => !entry.1.meets path) ++ [(path, value)]

/-- The entries after some more have been made, in order. -/
def assignAll (entries : Entries) (others : List (Path × Scalar)) : Entries :=
  others.foldl (fun entries (path, value) => entries.assign path value) entries

/-- The value at the end of a path. -/
def find? (entries : Entries) (path : Path) : Option Scalar :=
  (List.find? (fun entry => entry.1 = path) entries).map Prod.snd

/-- There is an entry below a path, or at its end. -/
def reaches (entries : Entries) (path : Path) : Bool :=
  entries.any fun entry => path.isPrefixOf entry.1

/-- After an assignment no entry lies below another. -/
theorem apart_assign {entries : Entries} {path : Path} {value : Scalar}
    (h : entries.Pairwise fun a b => a.1.meets b.1 = false) :
    (entries.assign path value).Pairwise fun a b => a.1.meets b.1 = false := by
  refine List.pairwise_append.2 ⟨h.filter _, List.pairwise_singleton _ _, fun a ha b hb => ?_⟩
  rw [List.mem_singleton.1 hb]
  simpa using (List.mem_filter.1 ha).2

end Entries

end Linewise
