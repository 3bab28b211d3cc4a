import Linewise.Text

/-!
# Breakpoints

A finite set of lines, kept as the list of its members in ascending order. There is one list for
each set, so two sets with the same members are equal.

* `Breakpoints.mem_insert`, `Breakpoints.mem_erase`: what the two operations do to the members.
-/

namespace Linewise

/-- The lines at which a run stops. -/
@[ext]
structure Breakpoints where
  lines : List Line
  /-- The lines ascend, so none stands twice. -/
  ascending : lines.Pairwise (· < ·)

namespace Breakpoints

instance : DecidableEq Breakpoints := fun a b =>
  decidable_of_iff (a.lines = b.lines) ⟨Breakpoints.ext, congrArg lines⟩

instance : Membership Line Breakpoints := ⟨fun breakpoints line => line ∈ breakpoints.lines⟩

theorem mem_def {line : Line} {breakpoints : Breakpoints} :
    line ∈ breakpoints ↔ line ∈ breakpoints.lines := .rfl

instance (line : Line) (breakpoints : Breakpoints) : Decidable (line ∈ breakpoints) :=
  decidable_of_iff _ mem_def.symm

/-- No breakpoints. -/
def empty : Breakpoints := ⟨[], .nil⟩

/-- There is no breakpoint. -/
def isEmpty (breakpoints : Breakpoints) : Bool := breakpoints.lines.isEmpty

/-- A line put in front of the first greater one, unless it is there. -/
def insertLine (line : Line) : List Line → List Line
  | [] => [line]
  | first :: rest =>
    if line < first then line :: first :: rest
    else if line = first then first :: rest
    else first :: insertLine line rest

/-- After an insertion there is the new line, and those that were there before. -/
theorem mem_insertLine {line other : Line} {lines : List Line} :
    other ∈ insertLine line lines ↔ other = line ∨ other ∈ lines := by
  induction lines with
  | nil => simp [insertLine]
  | cons first rest ih => grind [insertLine]

/-- An insertion keeps the lines in ascending order. -/
theorem pairwise_insertLine {line : Line} {lines : List Line} (h : lines.Pairwise (· < ·)) :
    (insertLine line lines).Pairwise (· < ·) := by
  induction lines with
  | nil => exact List.pairwise_singleton _ _
  | cons first rest ih =>
    obtain ⟨above, ascending⟩ := List.pairwise_cons.1 h
    unfold insertLine
    split
    next lower =>
      refine List.pairwise_cons.2 ⟨fun other mem => ?_, h⟩
      rcases List.mem_cons.1 mem with rfl | mem
      · exact lower
      · exact UInt32.lt_trans lower (above other mem)
    next notLower =>
      split
      next => exact h
      next distinct =>
        -- The first line stays in front: all that is behind it is new or was there before.
        refine List.pairwise_cons.2 ⟨fun other mem => ?_, ih ascending⟩
        rcases mem_insertLine.1 mem with rfl | mem
        · exact UInt32.lt_of_le_of_ne (UInt32.not_lt.1 notLower) (Ne.symm distinct)
        · exact above other mem

/-- The set with a line added to it. -/
def insert (breakpoints : Breakpoints) (line : Line) : Breakpoints :=
  ⟨insertLine line breakpoints.lines, pairwise_insertLine breakpoints.ascending⟩

/-- The set without a line. -/
def erase (breakpoints : Breakpoints) (line : Line) : Breakpoints :=
  ⟨breakpoints.lines.filter (· ≠ line), breakpoints.ascending.filter _⟩

@[simp]
theorem mem_insert {breakpoints : Breakpoints} {line other : Line} :
    other ∈ breakpoints.insert line ↔ other = line ∨ other ∈ breakpoints :=
  mem_insertLine

@[simp]
theorem mem_erase {breakpoints : Breakpoints} {line other : Line} :
    other ∈ breakpoints.erase line ↔ other ∈ breakpoints ∧ other ≠ line := by
  simp [mem_def, erase]

/-- The set of some lines. -/
def ofList (lines : List Line) : Breakpoints := lines.foldl insert empty

/-- The line that a user means by a text: a positive number, with blanks around it or none. -/
def line? (text : String) : Option Line :=
  (Numeral.word32? (Text.trim text)).filter (0 < ·)

end Breakpoints

end Linewise
