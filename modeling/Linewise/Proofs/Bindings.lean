import Linewise.Bindings

/-!
# Bindings of other values

Bindings may hold other values than they did (`Bindings.map`), and looking up a name, binding one
and collecting pairs do the same to both (`find?_map`, `insert_map`, `ofList_map`). A sort that
all bound values are of (`Bindings.All`) is kept when another value of it is bound. Bindings are
what collecting their own entries gives (`ofList_entries`).

A name that is taken out and bound again is bound as if it had stayed (`insert_erase`), and to its
own value as before (`insert_of_find?`).
-/

namespace Linewise.Bindings

variable {α β : Type} {name : String} {v : α}

/-- A value may be replaced before it is inserted or after. -/
theorem insertEntry_map (f : α → β) (entries : List (String × α)) :
    insertEntry name (f v) (entries.map fun entry => (entry.1, f entry.2)) =
      (insertEntry name v entries).map fun entry => (entry.1, f entry.2) := by
  induction entries with
  | nil => rfl
  | cons entry rest ih =>
    simp only [List.map_cons, insertEntry]
    split
    · rfl
    · split
      · rfl
      · rw [ih, List.map_cons]

@[simp]
theorem insert_map (f : α → β) (bindings : Bindings α) :
    (bindings.map f).insert name (f v) = (bindings.insert name v).map f :=
  Bindings.ext (insertEntry_map f bindings.entries)

@[simp]
theorem find?_map (f : α → β) (bindings : Bindings α) :
    (bindings.map f).find? name = (bindings.find? name).map f := by
  simp only [find?, map, List.find?_map, Option.map_map]
  rfl

theorem map_map {γ : Type} (g : β → γ) (f : α → β) (bindings : Bindings α) :
    (bindings.map f).map g = bindings.map (g ∘ f) :=
  Bindings.ext (List.map_map ..)

/-- Values may be replaced before the pairs are bound or after. -/
theorem ofList_map (f : α → β) (pairs : List (String × α)) :
    ofList (pairs.map fun pair => (pair.1, f pair.2)) = (ofList pairs).map f := by
  -- The pairs are bound to what is bound already, so the induction is for any start.
  have key : ∀ start : Bindings α,
      (pairs.map fun pair => (pair.1, f pair.2)).foldl
        (fun bindings pair => bindings.insert pair.1 pair.2) (start.map f) =
      (pairs.foldl (fun bindings pair => bindings.insert pair.1 pair.2) start).map f := by
    induction pairs with
    | nil => exact fun _ => rfl
    | cons pair rest ih =>
      intro start
      rw [List.map_cons, List.foldl_cons, List.foldl_cons, ← ih]
      dsimp only
      rw [insert_map]
  exact key empty

/-- Every name is bound to a value of the sort `P`. -/
def All (P : α → Prop) (bindings : Bindings α) : Prop := ∀ entry ∈ bindings.entries, P entry.2

variable {P : α → Prop} {bindings : Bindings α}

theorem all_empty : (empty : Bindings α).All P := by simp [All, empty]

/-- What holds of all values holds of them after an insertion, if it does of the new one. -/
theorem All.insert (h : bindings.All P) (hv : P v) : (bindings.insert name v).All P := by
  intro entry hentry
  rcases mem_insertEntry hentry with rfl | hmem
  · exact hv
  · exact h entry hmem

theorem All.find? (h : bindings.All P) (hv : bindings.find? name = some v) : P v := by
  obtain ⟨entry, hentry, rfl⟩ := Option.map_eq_some_iff.1 hv
  exact h entry (List.mem_of_find?_eq_some hentry)

/-- What holds of every value in a list of pairs holds of the values bound by it. -/
theorem all_ofList {pairs : List (String × α)} (h : ∀ pair ∈ pairs, P pair.2) :
    (ofList pairs).All P := by
  have key : ∀ start : Bindings α, start.All P →
      (pairs.foldl (fun bindings pair => bindings.insert pair.1 pair.2) start).All P := by
    induction pairs with
    | nil => exact fun _ hs => hs
    | cons pair rest ih =>
      intro start hs
      exact ih (fun p hp => h p (List.mem_cons_of_mem _ hp)) _
        (hs.insert (h pair List.mem_cons_self))
  exact key empty all_empty

/-- The entry of a name after all others goes to the end. -/
theorem insertEntry_of_lt {entries : List (String × α)} (h : ∀ entry ∈ entries, entry.1 < name) :
    insertEntry name v entries = entries ++ [(name, v)] := by
  induction entries with
  | nil => rfl
  | cons entry rest ih =>
    have hlt := h entry List.mem_cons_self
    rw [insertEntry, if_neg (String.lt_asymm hlt), if_neg fun heq => String.lt_irrefl _ (heq ▸ hlt),
      ih fun other hother => h other (List.mem_cons_of_mem _ hother)]
    rfl

/-- Bindings can be had back from the list of their entries. -/
theorem ofList_entries (bindings : Bindings α) : ofList bindings.entries = bindings := by
  -- Each entry in turn goes to the end of those before it.
  have key : ∀ (rest : List (String × α)) (start : Bindings α),
      (start.entries ++ rest).Pairwise (fun a b => a.1 < b.1) →
        (rest.foldl (fun bindings pair => bindings.insert pair.1 pair.2) start).entries =
          start.entries ++ rest := by
    intro rest
    induction rest with
    | nil => exact fun start _ => (List.append_nil _).symm
    | cons entry rest ih =>
      intro start h
      obtain ⟨-, -, hlt⟩ := List.pairwise_append.1 h
      have hinsert : (start.insert entry.1 entry.2).entries = start.entries ++ [entry] :=
        insertEntry_of_lt fun other hother => hlt other hother entry List.mem_cons_self
      rw [List.foldl_cons, ih, hinsert, List.append_assoc]
      · rfl
      · rwa [hinsert, List.append_assoc]
  exact Bindings.ext (key bindings.entries empty bindings.ascending)

/-! ## Taking a binding out and putting it back -/

variable {bindings : Bindings α}

/-- An insertion puts the new value in the place of an old one, which may as well be taken out
    first. -/
theorem insertEntry_filter {entries : List (String × α)}
    (h : entries.Pairwise fun a b => a.1 < b.1) :
    insertEntry name v (entries.filter fun entry => entry.1 ≠ name) =
      insertEntry name v entries := by
  induction entries with
  | nil => rfl
  | cons entry rest ih =>
    obtain ⟨habove, hrest⟩ := List.pairwise_cons.1 h
    by_cases hname : name = entry.1
    · -- All entries after this one are of greater names, so they stay and the new one is in front.
      subst hname
      have hkept : rest.filter (fun other => other.1 ≠ entry.1) = rest :=
        List.filter_eq_self.2 fun other hother =>
          decide_eq_true fun heq => String.lt_irrefl _ (heq ▸ habove other hother)
      rw [List.filter_cons_of_neg (by simp), hkept, insertEntry, if_neg (String.lt_irrefl _),
        if_pos rfl]
      cases rest with
      | nil => rfl
      | cons next rest => rw [insertEntry, if_pos (habove next List.mem_cons_self)]
    · rw [List.filter_cons_of_pos (by simpa using Ne.symm hname), insertEntry, insertEntry,
        if_neg hname, if_neg hname, ih hrest]
      split
      next hlt =>
        -- Nothing is left out where all names are greater.
        have hkept : rest.filter (fun other => other.1 ≠ name) = rest :=
          List.filter_eq_self.2 fun other hother => decide_eq_true fun heq =>
            String.lt_irrefl _ (String.lt_trans hlt (heq ▸ habove other hother))
        rw [hkept]
      next => rfl

/-- What is bound after a name was taken out does not depend on what it was bound to. -/
@[simp]
theorem insert_erase : (bindings.erase name).insert name v = bindings.insert name v :=
  Bindings.ext (insertEntry_filter bindings.ascending)

/-- A name that is bound to its own value again is bound as before. -/
theorem insert_of_find? (h : bindings.find? name = some v) : bindings.insert name v = bindings := by
  obtain ⟨entries, hascending⟩ := bindings
  refine Bindings.ext ?_
  rw [find?] at h
  dsimp only [insert] at h ⊢
  induction entries with
  | nil => cases h
  | cons entry rest ih =>
    obtain ⟨habove, hrest⟩ := List.pairwise_cons.1 hascending
    obtain ⟨found, hfound, rfl⟩ := Option.map_eq_some_iff.1 h
    have hname : found.1 = name := by simpa using List.find?_some hfound
    rw [insertEntry]
    by_cases hentry : entry.1 = name
    · rw [List.find?_cons_of_pos (by simpa using hentry)] at hfound
      cases hfound
      rw [if_neg (hentry ▸ String.lt_irrefl _), if_pos hentry.symm, ← hentry]
    · rw [List.find?_cons_of_neg (by simpa using hentry)] at hfound h
      have hlt := habove found (List.mem_of_find?_eq_some hfound)
      rw [hname] at hlt
      rw [if_neg (String.lt_asymm hlt), if_neg (Ne.symm hentry), ih hrest h]

end Linewise.Bindings
