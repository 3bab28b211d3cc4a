import Mathlib
import Linewise.Code.Basic
import Linewise.Syntax.Token

/-!
# Scanned lexemes

In a text of fewer than `2 ^ 32` lines (`Syntax.lineCount`) the lines of the lexemes do not descend,
and start at one. In a longer one they start anew from zero, as line numbers have thirty-two bits.
Names consist of letters, digits and underscores, so none is the name that stands for the script
itself.
-/

namespace Linewise

/-- A number that fits is kept as it is. -/
theorem Line.toNat_ofCount {n : Nat} (h : n < UInt32.size) : (ofCount n).toNat = n :=
  UInt32.toNat_ofNat_of_lt h

namespace Syntax

/-- The number of lines of a text, all but the last of which end with a newline. -/
def lineCount (source : String) : Nat := source.toList.count '\n' + 1

variable {skip index : Nat} {place : Place} {c : Char} {cs rest : List Char}
  {entry : Lexeme × Nat}

theorem Place.line_le_after (place : Place) (c : Char) : place.line ≤ (place.after c).line := by
  rw [after]
  split
  · exact Nat.le_succ _
  · exact Nat.le_refl _

/-- The line of a place and the newlines after it stay the same number together. -/
theorem Place.line_after_add_count (place : Place) (c : Char) (rest : List Char) :
    (place.after c).line + rest.count '\n' = place.line + (c :: rest).count '\n' := by
  rw [after]
  by_cases hnewline : c = '\n'
  · rw [if_pos hnewline, hnewline, List.count_cons_self]
    exact Nat.succ_add_eq_add_succ ..
  · rw [if_neg hnewline, List.count_cons_of_ne hnewline]

/-- No lexeme starts on a line before the place where scanning began, if the numbers of all lines
    fit. -/
theorem line_le_of_mem_scanFrom (hfits : place.line + cs.count '\n' < UInt32.size)
    (h : entry ∈ scanFrom skip place index cs) : place.line ≤ entry.1.line.toNat := by
  -- The line that scanning is on fits, whatever is still to come.
  have hhere : (Line.ofCount place.line).toNat = place.line :=
    Line.toNat_ofCount (Nat.lt_of_le_of_lt (Nat.le_add_right _ _) hfits)
  induction cs generalizing skip place index with
  | nil =>
    rw [scanFrom, List.mem_singleton] at h
    rw [h, hhere]
  | cons c rest ih =>
    have hcount := place.line_after_add_count c rest
    have hnext : (Line.ofCount (place.after c).line).toNat = (place.after c).line :=
      Line.toNat_ofCount (by omega)
    have hrest : ∀ {skip index}, entry ∈ scanFrom skip (place.after c) index rest →
        place.line ≤ entry.1.line.toNat := fun hmem =>
      Nat.le_trans (place.line_le_after c) (ih (hcount ▸ hfits) hmem hnext)
    unfold scanFrom at h
    split at h
    · exact hrest h
    · split at h
      · exact hrest h
      · rcases List.mem_cons.1 h with rfl | h
        · rw [hhere]
        · exact hrest h

/-- Lexemes stand in the order of their lines, if the numbers of all lines fit. -/
theorem pairwise_scanFrom (skip index : Nat)
    (hfits : place.line + cs.count '\n' < UInt32.size) :
    (scanFrom skip place index cs).Pairwise fun a b => a.1.line ≤ b.1.line := by
  induction cs generalizing skip place index with
  | nil => exact List.pairwise_singleton _ _
  | cons c rest ih =>
    have hcount := place.line_after_add_count c rest
    have hnext : (place.after c).line + rest.count '\n' < UInt32.size := hcount ▸ hfits
    unfold scanFrom
    split
    · exact ih _ _ hnext
    · split
      · exact ih _ _ hnext
      · refine List.pairwise_cons.2 ⟨fun entry hentry => ?_, ih _ _ hnext⟩
        have hhere : place.line < UInt32.size :=
          Nat.lt_of_le_of_lt (Nat.le_add_right _ _) hfits
        rw [UInt32.le_iff_toNat_le, Line.toNat_ofCount hhere]
        exact Nat.le_trans (place.line_le_after c) (line_le_of_mem_scanFrom hnext hentry)

/-- A name has no other characters than those of words. -/
theorem isWordChar_of_pieceAt {c : Char} {rest : List Char} {name : String}
    (h : (pieceAt c rest).1 = some (.ident name)) : ∀ c ∈ name.toList, isWordChar c = true := by
  have hnumber : (numberAt (c :: rest)).1 ≠ .ident name := by
    rw [numberAt]
    dsimp only
    split
    · split <;> exact nofun
    · exact nofun
  -- Blanks, comments, texts, numbers and symbols are no names, so only words are left.
  rw [pieceAt] at h
  split at h
  · cases h
  split at h
  · cases h
  split at h
  · cases h
  split at h
  · have hword : (wordAt (c :: rest)).1 = .ident name := Option.some.inj h
    rw [wordAt] at hword
    dsimp only at hword
    split at hword
    · cases hword
    · cases hword
      intro d hd
      rw [String.toList_ofList] at hd
      exact List.all_eq_true.1 List.all_takeWhile d hd
  split at h
  · exact absurd (Option.some.inj h) hnumber
  split at h
  · split at h <;> cases h
  · split at h <;> cases h

/-- All names in a scanned text consist of word characters. -/
theorem isWordChar_of_mem_scanFrom {name : String} (h : entry ∈ scanFrom skip place index cs)
    (hname : entry.1.token = .ident name) : ∀ c ∈ name.toList, isWordChar c = true := by
  induction cs generalizing skip place index with
  | nil =>
    rw [scanFrom, List.mem_singleton] at h
    rw [h] at hname
    cases hname
  | cons c rest ih =>
    unfold scanFrom at h
    split at h
    · exact ih h
    · split at h
      · exact ih h
      · rename_i hpiece
        rcases List.mem_cons.1 h with rfl | h
        · exact isWordChar_of_pieceAt (by rw [hpiece, ← hname])
        · exact ih h

end Syntax

end Linewise
