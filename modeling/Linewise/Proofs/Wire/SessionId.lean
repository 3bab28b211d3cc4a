import Mathlib
import Linewise.Proofs.Wire.Literal
import Linewise.Wire.SessionId

/-!
# Identities read back

An identity is read back from its text (`SessionId.ofText?_text`): the digits of a number spell it,
and the hyphens between the groups are where the reader expects them.
-/

namespace Linewise.Wire.SessionId

/-- A number is written in as many digits as are asked for. -/
theorem length_hexDigits (count n : Nat) : (hexDigits count n).length = count := by
  induction count generalizing n with
  | zero => rfl
  | succ count ih => rw [hexDigits, List.length_append, ih, List.length_singleton]

/-- The lowest digits of a number spell what is left of it by a power of sixteen. -/
theorem value?_hexDigits (count n : Nat) : value? (hexDigits count n) = some (n % 16 ^ count) := by
  induction count generalizing n with
  | zero => simp [value?, hexDigits, Nat.mod_one]
  | succ count ih =>
    have hdigit := Json.hexValue?_hexDigit (n % 16) (Nat.mod_lt _ (by decide))
    have hmod : n % 16 ^ (count + 1) = 16 * (n / 16 % 16 ^ count) + n % 16 := by
      rw [Nat.pow_succ, Nat.mul_comm, Nat.mod_mul, Nat.add_comm]
    rw [value?, hexDigits, List.foldlM_append, ← value?, ih, hmod]
    simp [hdigit]

/-- Thirty-two digits are five groups. -/
theorem exists_groups {ds : List Char} (h : ds.length = 32) : ∃ a b c d e : List Char,
    a.length = 8 ∧ b.length = 4 ∧ c.length = 4 ∧ d.length = 4 ∧ e.length = 12 ∧
      ds = a ++ (b ++ (c ++ (d ++ e))) := by
  refine ⟨ds.take 8, (ds.drop 8).take 4, (ds.drop 12).take 4, (ds.drop 16).take 4, ds.drop 20,
    ?_, ?_, ?_, ?_, ?_, ?_⟩
  · simp [h]
  · simp [h]
  · simp [h]
  · simp [h]
  · simp [h]
  · -- Each group is followed by what starts where it ends, from the last group to the first.
    rw [← List.drop_drop (i := 4) (j := 16), List.take_append_drop,
      ← List.drop_drop (i := 4) (j := 12), List.take_append_drop,
      ← List.drop_drop (i := 4) (j := 8), List.take_append_drop, List.take_append_drop]

/-- The digits of an identity are found again between the hyphens. -/
theorem ofGroups?_grouped {ds : List Char} (h : ds.length = 32) :
    ofGroups? (grouped ds) = ofDigits? ds := by
  obtain ⟨a, b, c, d, e, ha, hb, hc, hd, he, rfl⟩ := exists_groups h
  have hgroups : grouped (a ++ (b ++ (c ++ (d ++ e)))) =
      a ++ '-' :: (b ++ '-' :: (c ++ '-' :: (d ++ '-' :: e))) := by
    simp [grouped, List.drop_append, List.drop_eq_nil_of_le, ha, hb, hc, hd]
  rw [hgroups, ofGroups?]
  simp [List.drop_append, List.drop_eq_nil_of_le, ha, hb, hc, hd, hgroups]

/-- An identity is read back from its text. -/
theorem ofText?_text (id : SessionId) : ofText? id.text = some id := by
  obtain ⟨bits⟩ := id
  have hdigits := length_hexDigits 32 bits.toNat
  have hvalue : bits.toNat % 16 ^ 32 = bits.toNat := Nat.mod_eq_of_lt bits.isLt
  have hlength : (grouped (hexDigits 32 bits.toNat)).length = 36 := by
    simp [grouped, hdigits]
  -- The ninth character of the text is a hyphen, where the prefix has a colon.
  have hprefix : (grouped (hexDigits 32 bits.toNat)).take 9 ≠ "urn:uuid:".toList := by
    intro heq
    have hninth := congrArg (fun cs => cs[8]?) heq
    simp [grouped, hdigits] at hninth
  rw [ofText?, text, String.toList_ofList]
  simp only [hlength]
  rw [if_neg (by decide), if_neg (by decide), if_neg hprefix, ofGroups?_grouped hdigits,
    ofDigits?, if_pos hdigits, value?_hexDigits, hvalue, Option.map_some]
  simp

end Linewise.Wire.SessionId
