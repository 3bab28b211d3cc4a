import Linewise.Code.Basic
import Linewise.Proofs.Value.Integer

/-!
# Repetitions

A text or a list times an integer is as many copies of it in sequence, in whichever order the two
stand, and it is refused exactly if the copies are too large together (`Value.Repeats`).

Their number is limited along with their size, as long as each of them has one. The copies of the
empty list have none, but they are made one after the other like those of any other list, so there
is no limit to how many that are (`Value.repetitions_exact`).
-/

namespace Linewise.Value

variable {φ : Type} {v : Value φ} {n : Int64} {size count : Nat} {copies : Value φ → Prop}
  {items : List (Value φ)}

/-- The number of copies that an integer asks for. -/
def copiesOf (n : Int64) : Nat := n.toInt.toNat

/-- A value of a given size is repeated: the result consists of its copies, or the repetition is
    refused for the size that these have together. -/
structure Repeats [FunctionHandle φ] (v : Value φ) (n : Int64) (size : Nat)
    (copies : Value φ → Prop) : Prop where
  comm : applyBinary .mul (int n) v = applyBinary .mul v (int n)
  fault_iff : IsFault .memoryError (applyBinary .mul v (int n)) ↔
    longestRepetition < size * copiesOf n
  exists_copies : size * copiesOf n ≤ longestRepetition →
    ∃ w, applyBinary .mul v (int n) = .ok w ∧ copies w

/-- A value is a text that consists of copies of another one. There are no more of them than a
    repetition may have bytes, unless they are empty. -/
def IsTextOf (s : String) (count : Nat) (v : Value φ) : Prop :=
  ∃ t, v = str t ∧ t.toList = (List.replicate count s.toList).flatten ∧
    (longestRepetition < count → s = "")

/-- A value is a list that has been made of copies of some items, one after the other. More of them
    are made than a repetition may have items exactly if that many of the empty list are asked
    for. -/
structure IsListOf (items : List (Value φ)) (count : Nat) (repetition : Repetition φ)
    (v : Value φ) : Prop where
  eq_list : v = list repetition.built.toList
  eq_copies : repetition.built.toList = (List.replicate count items).flatten
  copies_eq : repetition.copies = count
  exceeds_iff : longestRepetition < repetition.copies ↔ items = [] ∧ longestRepetition < count

/-- A value repeats as `Repeats` says if its product with a count is built from the number of copies
    that the count asks for. -/
theorem repeats_of [FunctionHandle φ] {build : Nat → Value φ}
    (hcomm : multiply (int n) v = multiply v (int n))
    (hmultiply : multiply v (int n) = do return build (← repeatCount n size))
    (hcopies : size * copiesOf n ≤ longestRepetition → copies (build (copiesOf n))) :
    Repeats v n size copies := by
  -- A negative count asks for no copies, and the bound is on the size of all of them together.
  have hresult : applyBinary .mul v (int n) =
      if longestRepetition < size * copiesOf n then .error .longRepetition
      else .ok (build (copiesOf n)) := by
    rw [applyBinary, hmultiply, repeatCount, copiesOf]
    by_cases hlt : longestRepetition < size * n.toInt.toNat
    · simp only [gt_iff_lt, if_pos hlt]
      rfl
    · simp only [gt_iff_lt, if_neg hlt]
      rfl
  refine ⟨hcomm, ?_, fun hle => ⟨_, ?_, hcopies hle⟩⟩
  · rw [hresult]
    split
    next hlt => exact iff_of_true ⟨_, rfl, rfl⟩ hlt
    next hle => exact iff_of_false nofun hle
  · rw [hresult, if_neg (Nat.not_lt.2 hle)]

/-- Where each copy has a size, there are no more copies than units of size. -/
theorem size_eq_zero (hle : size * count ≤ longestRepetition) (hlt : longestRepetition < count) :
    size = 0 := by
  by_contra hne
  have hmul : 1 * count ≤ size * count := Nat.mul_le_mul_right _ (Nat.pos_of_ne_zero hne)
  omega

/-- A repeated text consists of its copies. -/
theorem isTextOf_repeatText {s : String} (h : s.utf8ByteSize * count ≤ longestRepetition) :
    IsTextOf s count (str (repeatText s count) : Value φ) := by
  refine ⟨_, rfl, ?_, fun hlt => String.utf8ByteSize_eq_zero_iff.1 (size_eq_zero h hlt)⟩
  rw [repeatText]
  split
  next hempty =>
    obtain rfl := String.isEmpty_iff.1 hempty
    simp
  next => simp [String.toList_join, List.flatMap]

/-- A repeated list consists of its copies, which have been made one by one. -/
theorem isListOf_repeatItems (h : items.length * count ≤ longestRepetition) :
    IsListOf items count (Repetition.empty.extend items.toArray count)
      (list (repeatItems items count)) := by
  have hcopies : (Repetition.empty.extend items.toArray count).copies = count :=
    Repetition.copies_extend (Nat.zero_le count)
  refine ⟨rfl, repeatItems_eq items count, hcopies, ?_⟩
  rw [hcopies]
  exact ⟨fun hlt => ⟨List.length_eq_zero_iff.1 (size_eq_zero h hlt), hlt⟩, And.right⟩

/-- A repetition gives exactly the copies that were asked for, or is refused for their size. A text
    is measured in bytes and a list in items. -/
theorem repetitions_exact [FunctionHandle φ] (s : String) (items : List (Value φ)) (n : Int64) :
    Repeats (str s : Value φ) n s.utf8ByteSize (IsTextOf s (copiesOf n)) ∧
      Repeats (list items) n items.length (IsListOf items (copiesOf n)
        (Repetition.empty.extend items.toArray (copiesOf n))) :=
  ⟨repeats_of rfl rfl isTextOf_repeatText, repeats_of rfl rfl isListOf_repeatItems⟩

/-- Ten million and one copies of the empty list are made, and not refused. -/
theorem empty_list_repeated :
    applyBinary .mul (list []) (int 10000001 : Value Code) = .ok (list []) ∧
      (Repetition.empty.extend (#[] : Array (Value Code)) (copiesOf 10000001)).copies = 10000001 ∧
      longestRepetition < 10000001 := by
  have hnone : repeatItems ([] : List (Value Code)) 10000001 = [] := by
    rw [repeatItems_eq, List.flatten_eq_nil_iff]
    exact fun _ => List.eq_of_mem_replicate
  refine ⟨?_, Repetition.copies_extend (Nat.zero_le _), by decide⟩
  exact congrArg (Except.ok ∘ list) hnone

end Linewise.Value
