/-!
# Bindings

A finite map from names, kept as the list of its entries in ascending order of the names. There is
one list for each map, so two sets of bindings with the same values for the same names are equal.
-/

namespace Linewise

/-- Values bound to names. -/
@[ext]
structure Bindings (α : Type) where
  entries : List (String × α)
  /-- The names ascend, so none stands twice. -/
  ascending : entries.Pairwise fun a b => a.1 < b.1

namespace Bindings

variable {α β : Type}

/-- No bindings. -/
def empty : Bindings α := ⟨[], .nil⟩

instance : Inhabited (Bindings α) := ⟨empty⟩

instance [DecidableEq α] : DecidableEq (Bindings α) := fun a b =>
  decidable_of_iff (a.entries = b.entries) ⟨Bindings.ext, congrArg entries⟩

/-- The entry of a name in front of those after it, in place of an older one. -/
def insertEntry (name : String) (value : α) : List (String × α) → List (String × α)
  | [] => [(name, value)]
  | entry :: rest =>
    if name < entry.1 then (name, value) :: entry :: rest
    else if name = entry.1 then (name, value) :: rest
    else entry :: insertEntry name value rest

/-- After an insertion there is the new entry, and none that was not there before. -/
theorem mem_insertEntry {name : String} {value : α} {entries : List (String × α)}
    {entry : String × α} (h : entry ∈ insertEntry name value entries) :
    entry = (name, value) ∨ entry ∈ entries := by
  induction entries with
  | nil => exact .inl (List.mem_singleton.1 h)
  | cons first rest ih =>
    unfold insertEntry at h
    split at h
    · rcases List.mem_cons.1 h with h | h
      · exact .inl h
      · exact .inr h
    · split at h
      · rcases List.mem_cons.1 h with h | h
        · exact .inl h
        · exact .inr (.tail _ h)
      · rcases List.mem_cons.1 h with h | h
        · exact .inr (h ▸ .head _)
        · exact (ih h).imp_right (.tail _)

/-- An insertion keeps the names in ascending order. -/
theorem pairwise_insertEntry {name : String} {value : α} {entries : List (String × α)}
    (h : entries.Pairwise fun a b => a.1 < b.1) :
    (insertEntry name value entries).Pairwise fun a b => a.1 < b.1 := by
  induction entries with
  | nil => exact List.pairwise_singleton _ _
  | cons first rest ih =>
    obtain ⟨above, ascending⟩ := List.pairwise_cons.1 h
    unfold insertEntry
    split
    next lower =>
      -- The new entry comes first, in front of a name greater than its own.
      refine List.pairwise_cons.2 ⟨fun entry mem => ?_, h⟩
      rcases List.mem_cons.1 mem with rfl | mem
      · exact lower
      · exact String.lt_trans lower (above entry mem)
    next notLower =>
      split
      next same => exact List.pairwise_cons.2 ⟨fun entry mem => same ▸ above entry mem, ascending⟩
      next other =>
        -- The first entry stays in front: all that is behind it is new or was there before.
        refine List.pairwise_cons.2 ⟨fun entry mem => ?_, ih ascending⟩
        rcases mem_insertEntry mem with rfl | mem
        · exact Std.lt_of_le_of_ne (String.not_lt.1 notLower) (Ne.symm other)
        · exact above entry mem

/-- The bindings with a name bound to a value, whatever it was bound to. -/
def insert (bindings : Bindings α) (name : String) (value : α) : Bindings α :=
  ⟨insertEntry name value bindings.entries, pairwise_insertEntry bindings.ascending⟩

/-- The bindings without the one of a name. -/
def erase (bindings : Bindings α) (name : String) : Bindings α :=
  ⟨bindings.entries.filter fun entry => entry.1 ≠ name, bindings.ascending.filter _⟩

/-- The value that a name is bound to. -/
def find? (bindings : Bindings α) (name : String) : Option α :=
  (bindings.entries.find? fun entry => entry.1 = name).map Prod.snd

/-- The number of names that are bound. -/
def size (bindings : Bindings α) : Nat := bindings.entries.length

/-- The bindings that some pairs make one after the other, so that a later pair wins. -/
def ofList (pairs : List (String × α)) : Bindings α :=
  pairs.foldl (fun bindings (name, value) => bindings.insert name value) empty

/-- The same names, bound to what a function makes of their values. -/
def map (f : α → β) (bindings : Bindings α) : Bindings β where
  entries := bindings.entries.map fun (name, value) => (name, f value)
  ascending := List.pairwise_map.2 bindings.ascending

end Bindings

end Linewise
