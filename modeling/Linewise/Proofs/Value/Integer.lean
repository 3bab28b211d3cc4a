import Mathlib.Data.Rat.Floor
import Mathlib.Tactic.Linarith
import Linewise.Builtin.Call
import Linewise.Code.Basic
import Linewise.Value.Arithmetic

/-!
# Arithmetic of integers

An operation on integers of sixty-four bits gives the exact result, or an overflow when this is not
such an integer itself (`Value.IsExact`). A quotient is rounded towards the lower integer, and the
remainder goes with it: it lies between zero and the divisor (`Value.integers_exact`).

Machines divide otherwise. They round quotients towards zero, and their remainders have the sign of
the dividend. So the quotient is too large by one, and the remainder lacks one divisor, just when
there is a remainder whose sign is not that of the divisor (`Word.floorQuotient`,
`Word.floorRemainder`). These corrections never overflow, although some of the operations in them
are not checked: the remainder is not taken where the quotient has overflown already, and a
remainder and a divisor of opposite signs have a sum between them (`Word.floorQuotient_eq`,
`Word.floorRemainder_eq`).
-/

namespace Linewise

/-! ## Division of integers -/

namespace Word

/-- A quotient rounded towards the lower integer, with its remainder. -/
def IsFloorDivision (a b q r : Int) : Prop :=
  r + b * q = a ∧ (0 ≤ r ∧ r < b ∨ b < r ∧ r ≤ 0)

variable {a b q r : Int}

/-- There is one such quotient with its remainder for each divisor. -/
theorem isFloorDivision_iff (hb : b ≠ 0) :
    IsFloorDivision a b q r ↔ a.fdiv b = q ∧ a.fmod b = r := by
  rw [IsFloorDivision]
  rcases Int.lt_or_gt_of_ne hb with hneg | hpos
  · rw [Int.fdiv_fmod_unique' hneg]
    omega
  · rw [Int.fdiv_fmod_unique hpos]
    omega

theorem isFloorDivision_fdiv (hb : b ≠ 0) : IsFloorDivision a b (a.fdiv b) (a.fmod b) :=
  (isFloorDivision_iff hb).2 ⟨rfl, rfl⟩

/-- The quotient is the greatest integer below the exact one. -/
theorem IsFloorDivision.floor_eq (h : IsFloorDivision a b q r) : ⌊(a : ℚ) / b⌋ = q := by
  obtain ⟨rfl, hr⟩ := h
  have hb : (b : ℚ) ≠ 0 := Int.cast_ne_zero.2 (by omega)
  -- What is left over of the exact quotient is a proper fraction.
  have hfraction : 0 ≤ (r : ℚ) / b ∧ (r : ℚ) / b < 1 := by
    rcases hr with ⟨hnonneg, hlt⟩ | ⟨hlt, hnonpos⟩
    · have hpos : (0 : ℚ) < b := Int.cast_pos.2 (by omega)
      exact ⟨div_nonneg (Int.cast_nonneg hnonneg) hpos.le, (div_lt_one hpos).2 (Int.cast_lt.2 hlt)⟩
    · have hneg : (b : ℚ) < 0 := Int.cast_lt_zero.2 (by omega)
      exact ⟨div_nonneg_of_nonpos (Int.cast_nonpos.2 hnonpos) hneg.le,
        (div_lt_one_of_neg hneg).2 (Int.cast_lt.2 hlt)⟩
  have hsplit : ((r + b * q : Int) : ℚ) / b = r / b + q := by
    push_cast
    rw [add_div, mul_div_cancel_left₀ _ hb]
  rw [Int.floor_eq_iff, hsplit]
  constructor <;> linarith

/-- What is rounded towards zero is corrected when there is a remainder of the other sign than the
    divisor. -/
theorem isFloorDivision_tdiv (hb : b ≠ 0) :
    if a.tmod b ≠ 0 ∧ ¬(a.tmod b < 0 ↔ b < 0)
    then IsFloorDivision a b (a.tdiv b - 1) (a.tmod b + b)
    else IsFloorDivision a b (a.tdiv b) (a.tmod b) := by
  have hsum : a.tmod b + b * a.tdiv b = a := Int.tmod_add_mul_tdiv a b
  have habs : (a.tmod b).natAbs < b.natAbs := by
    rw [Int.natAbs_tmod]
    exact Nat.mod_lt _ (Int.natAbs_pos.2 hb)
  split
  · refine ⟨?_, by omega⟩
    rw [Int.mul_sub, Int.mul_one]
    omega
  · exact ⟨hsum, by omega⟩

/-- The remainder towards zero has the sign of the dividend. -/
theorem tmod_neg_iff (h : a.tmod b ≠ 0) : a.tmod b < 0 ↔ a < 0 := by
  have hsign := Int.sign_tmod a b
  rw [if_neg fun hdvd => h (Int.tmod_eq_zero_of_dvd hdvd)] at hsign
  rw [← Int.sign_eq_neg_one_iff_neg, hsign, Int.sign_eq_neg_one_iff_neg]

/-! ## Computing with words -/

/-- The word of an integer, which only those of sixty-four bits have. -/
def ofInt? (n : Int) : Option Int64 :=
  if Int64.minValue.toInt ≤ n ∧ n ≤ Int64.maxValue.toInt then some (Int64.ofInt n) else none

/-- An integer fits in sixty-four bits when there is one of these with its value. -/
theorem ofInt?_eq_some_iff {n : Int} {k : Int64} : ofInt? n = some k ↔ k.toInt = n := by
  rw [ofInt?]
  split
  next h =>
    rw [Option.some.injEq, ← Int64.toInt_inj,
      Int64.toInt_ofInt_of_le h.1 (by exact Int.lt_add_one_of_le h.2)]
    exact eq_comm
  next h =>
    refine ⟨nofun, ?_⟩
    rintro rfl
    exact absurd ⟨Int64.minValue_le_toInt k, Int64.toInt_le k⟩ h

theorem ofInt?_eq_none_iff {n : Int} : ofInt? n = none ↔ ∀ k : Int64, k.toInt ≠ n := by
  rw [Option.eq_none_iff_forall_ne_some]
  exact forall_congr' fun k => not_congr ofInt?_eq_some_iff

/-- What leaves the range of words is no word. -/
theorem forall_toInt_ne_iff {n : Int} : (∀ k : Int64, k.toInt ≠ n) ↔
    n < Int64.minValue.toInt ∨ Int64.maxValue.toInt < n := by
  rw [← ofInt?_eq_none_iff, ofInt?]
  split
  · exact iff_of_false nofun (by omega)
  · exact iff_of_true rfl (by omega)

variable {m n : Int64}

/-- There is one more word below zero than above it. -/
theorem toInt_minValue_eq : Int64.minValue.toInt = -Int64.maxValue.toInt - 1 := by decide

/-- The least word is the only one whose opposite is no word. -/
theorem eq_minValue_iff : m = Int64.minValue ↔ Int64.maxValue.toInt < -m.toInt := by
  have hbounds := toInt_minValue_eq
  have hmin := Int64.minValue_le_toInt m
  rw [← Int64.toInt_inj]
  omega

/-- A remainder of a word is a word, as zero and the divisor are. -/
theorem IsFloorDivision.exists_word (h : IsFloorDivision a n.toInt q r) :
    ∃ k : Int64, ofInt? r = some k := by
  have hmin := Int64.minValue_le_toInt n
  have hmax := Int64.toInt_le n
  have hzero : Int64.minValue.toInt ≤ 0 ∧ 0 ≤ Int64.maxValue.toInt := by decide
  exact ⟨Int64.ofInt r, if_pos (by have := h.2; omega)⟩

/-- The quotient rounded towards zero, if there is one and it is a word. -/
def quotient? (m n : Int64) : Option Int64 :=
  if n = 0 then none else ofInt? (m.toInt.tdiv n.toInt)

/-- The remainder of the quotient rounded towards zero. A machine computes both at once, so there is
    no remainder without the quotient. -/
def remainder? (m n : Int64) : Option Int64 :=
  if n = 0 ∨ m = Int64.minValue ∧ n = -1 then none else some (m % n)

/-- The signs of two words differ, where zero counts as positive. -/
def DifferInSign (m n : Int64) : Prop := ¬(m < 0 ↔ n < 0)

instance : Decidable (DifferInSign m n) := inferInstanceAs (Decidable ¬(m < 0 ↔ n < 0))

/-- The quotient rounded towards the lower integer, if it is a word. There is no result at all when
    an operation overflows that is not checked. -/
def floorQuotient (m n : Int64) : Option (Option Int64) :=
  match quotient? m n with
  | none => some none
  | some q => do
    let r ← remainder? m n
    return if r ≠ 0 ∧ DifferInSign m n then ofInt? (q.toInt - 1) else some q

/-- The remainder of the quotient rounded towards the lower integer. There is no result when an
    operation overflows. -/
def floorRemainder (m n : Int64) : Option Int64 :=
  let r := m % n
  if r ≠ 0 ∧ DifferInSign r n then ofInt? (r.toInt + n.toInt) else some r

theorem toInt_ne_zero_iff : n.toInt ≠ 0 ↔ n ≠ 0 := by
  rw [← Int64.toInt_zero, Ne, Int64.toInt_inj]

theorem toInt_neg_iff : n.toInt < 0 ↔ n < 0 := by
  rw [Int64.lt_iff_toInt_lt, Int64.toInt_zero]

/-- A quotient that is no word is that of the least word and `-1`. -/
theorem eq_of_tdiv_eq_none (h : ofInt? (m.toInt.tdiv n.toInt) = none) :
    m = Int64.minValue ∧ n = -1 := by
  by_contra hne
  rw [ofInt?_eq_none_iff] at h
  rcases not_and_or.1 hne with hm | hn
  · exact h (m / n) (Int64.toInt_div_of_ne_left m n hm)
  · exact h (m / n) (Int64.toInt_div_of_ne_right m n hn)

/-- When the machine's remainder has to be corrected. -/
theorem corrects_iff : m % n ≠ 0 ∧ DifferInSign (m % n) n ↔
    m.toInt.tmod n.toInt ≠ 0 ∧ ¬(m.toInt.tmod n.toInt < 0 ↔ n.toInt < 0) := by
  rw [← toInt_ne_zero_iff, DifferInSign, ← toInt_neg_iff, ← toInt_neg_iff, Int64.toInt_mod]

/-- The machine's remainder differs in sign from the divisor when the dividend does. -/
theorem corrects_dividend_iff :
    m % n ≠ 0 ∧ DifferInSign m n ↔ m % n ≠ 0 ∧ DifferInSign (m % n) n := by
  refine and_congr_right fun hne => not_congr (iff_congr ?_ Iff.rfl)
  rw [← toInt_ne_zero_iff, Int64.toInt_mod] at hne
  rw [← toInt_neg_iff, ← toInt_neg_iff, Int64.toInt_mod, tmod_neg_iff hne]

/-- The quotient towards the lower integer is computed without an unchecked overflow. -/
theorem floorQuotient_eq (hn : n ≠ 0) :
    floorQuotient m n = some (ofInt? (m.toInt.fdiv n.toInt)) := by
  have hn' := toInt_ne_zero_iff.2 hn
  have hcorrect := isFloorDivision_tdiv (a := m.toInt) hn'
  rw [floorQuotient, quotient?, if_neg hn]
  cases hq : ofInt? (m.toInt.tdiv n.toInt) with
  | none =>
    obtain ⟨rfl, rfl⟩ := eq_of_tdiv_eq_none hq
    rfl
  | some q =>
    -- There is a quotient, so the remainder can be taken.
    have hremainder : remainder? m n = some (m % n) := by
      refine if_neg ?_
      rintro (hzero | ⟨rfl, rfl⟩)
      · exact hn hzero
      · cases hq
    have htdiv := ofInt?_eq_some_iff.1 hq
    simp only [hremainder, Option.bind_eq_bind, Option.bind_some, pure, corrects_dividend_iff,
      corrects_iff]
    split at hcorrect
    next h =>
      rw [if_pos h, htdiv, ((isFloorDivision_iff hn').1 hcorrect).1]
    next h =>
      rw [if_neg h, ((isFloorDivision_iff hn').1 hcorrect).1, ofInt?_eq_some_iff.2 htdiv]

/-- The remainder of the quotient towards the lower integer is computed without an overflow. -/
theorem floorRemainder_eq (hn : n ≠ 0) :
    ∃ r, floorRemainder m n = some r ∧ r.toInt = m.toInt.fmod n.toInt := by
  have hn' := toInt_ne_zero_iff.2 hn
  have hcorrect := isFloorDivision_tdiv (a := m.toInt) hn'
  simp only [floorRemainder, corrects_iff, Int64.toInt_mod]
  split at hcorrect
  next h =>
    obtain ⟨-, hfmod⟩ := (isFloorDivision_iff hn').1 hcorrect
    obtain ⟨k, hk⟩ := hcorrect.exists_word
    exact ⟨k, (if_pos h).trans hk, (ofInt?_eq_some_iff.1 hk).trans hfmod.symm⟩
  next h =>
    obtain ⟨-, hfmod⟩ := (isFloorDivision_iff hn').1 hcorrect
    exact ⟨m % n, if_neg h, by rw [Int64.toInt_mod, hfmod]⟩

end Word

/-! ## Operators -/

namespace Value

variable {φ : Type}

/-- The result is an integer, or an overflow when that is not one of sixty-four bits. -/
def IsExact (n : Int) (result : Except Cause (Value φ)) : Prop :=
  (∃ k : Int64, k.toInt = n ∧ result = .ok (int k)) ∨
    (∀ k : Int64, k.toInt ≠ n) ∧ result = .error .overflow

/-- The result is a fault of a class. -/
def IsFault (kind : FaultClass) (result : Except Cause (Value φ)) : Prop :=
  ∃ cause, result = .error cause ∧ cause.kind = kind

/-- The result that a checked computation with words gives. -/
def ofWord? : Option Int64 → Except Cause (Value φ)
  | some k => .ok (int k)
  | Option.none => .error .overflow

theorem exact_eq_ofWord? (n : Int) :
    (exact n : Except Cause (Value φ)) = ofWord? (Word.ofInt? n) := by
  rw [exact, Word.ofInt?]
  split <;> rfl

/-- A whole number is given exactly if it fits, and faults otherwise. -/
theorem isExact_exact (n : Int) : IsExact n (exact n : Except Cause (Value φ)) := by
  rw [exact_eq_ofWord?]
  cases h : Word.ofInt? n with
  | some k => exact .inl ⟨k, Word.ofInt?_eq_some_iff.1 h, rfl⟩
  | none => exact .inr ⟨Word.ofInt?_eq_none_iff.1 h, rfl⟩

/-- An exact result is an overflow when it is no integer of sixty-four bits, and never another
    fault. -/
theorem IsExact.isFault_iff {n : Int} {result : Except Cause (Value φ)} {kind : FaultClass}
    (h : IsExact n result) :
    IsFault kind result ↔ kind = .overflowError ∧ ∀ k : Int64, k.toInt ≠ n := by
  rcases h with ⟨k, hk, rfl⟩ | ⟨hnone, rfl⟩
  · exact ⟨nofun, fun ⟨_, hnone⟩ => absurd hk (hnone k)⟩
  · refine ⟨?_, fun ⟨hkind, _⟩ => ⟨_, rfl, hkind.symm⟩⟩
    rintro ⟨_, ⟨⟩, rfl⟩
    exact ⟨rfl, hnone⟩

variable {m n : Int64}

/-- The least integer is the only one whose opposite is none of sixty-four bits. -/
theorem forall_ne_neg_iff : (∀ k : Int64, k.toInt ≠ -m.toInt) ↔ m = Int64.minValue := by
  have hmax := Int64.toInt_le m
  have hbounds := Word.toInt_minValue_eq
  rw [Word.forall_toInt_ne_iff, Word.eq_minValue_iff]
  omega

/-- Only the least integer has no absolute value. -/
theorem forall_ne_abs_iff : (∀ k : Int64, k.toInt ≠ |m.toInt|) ↔ m = Int64.minValue := by
  have hmax := Int64.toInt_le m
  have hbounds := Word.toInt_minValue_eq
  rw [Word.forall_toInt_ne_iff, Word.eq_minValue_iff]
  rcases abs_cases m.toInt with ⟨habs, hsign⟩ | ⟨habs, hsign⟩ <;> rw [habs] <;> omega

theorem isExact_absolute : IsExact |m.toInt| (absolute (int m : Value φ)) := by
  rw [absolute]
  split
  next h => exact .inr ⟨forall_ne_abs_iff.2 h, rfl⟩
  next h =>
    -- The absolute value is some word, so it is the one that is made of it.
    obtain ⟨k, hk⟩ := not_forall_not.1 (forall_ne_abs_iff.not.2 h)
    refine .inl ⟨k, hk, ?_⟩
    rw [Int.natCast_natAbs, ← hk, Int64.ofInt_toInt]

/-- A division that is exact otherwise faults for its divisor just when this is zero. -/
theorem isFault_division_iff {k : Int} {cause : Cause} {result : Except Cause (Value φ)}
    (hcause : cause.kind = .zeroDivisionError) (h : IsExact k result) :
    IsFault .zeroDivisionError (if n = 0 then .error cause else result) ↔ n = 0 := by
  split
  next hn => exact iff_of_true ⟨cause, rfl, hcause⟩ hn
  next hn => exact iff_of_false (fun hfault => nomatch (h.isFault_iff.1 hfault).1) hn

theorem isFault_floorDivide_iff :
    IsFault .zeroDivisionError (floorDivide (int m) (int n : Value φ)) ↔ n = 0 :=
  isFault_division_iff rfl (isExact_exact _)

theorem isFault_modulo_iff :
    IsFault .zeroDivisionError (modulo (int m) (int n : Value φ)) ↔ n = 0 :=
  isFault_division_iff rfl (isExact_exact _)

/-- A quotient is exact, and computed with words. -/
theorem floorDivide_eq (hn : n ≠ 0) :
    IsExact ⌊(m.toInt : ℚ) / n.toInt⌋ (floorDivide (int m) (int n : Value φ)) ∧
      ∃ q?, Word.floorQuotient m n = some q? ∧
        floorDivide (int m) (int n : Value φ) = ofWord? q? := by
  have hfloor := (Word.isFloorDivision_fdiv (a := m.toInt) (Word.toInt_ne_zero_iff.2 hn)).floor_eq
  rw [floorDivide, if_neg hn, hfloor]
  exact ⟨isExact_exact _, _, Word.floorQuotient_eq hn, exact_eq_ofWord? _⟩

/-- A remainder is never an overflow. -/
theorem modulo_eq (hn : n ≠ 0) :
    ∃ r : Int64, modulo (int m) (int n : Value φ) = .ok (int r) ∧
      Word.floorRemainder m n = some r ∧
      Word.IsFloorDivision m.toInt n.toInt ⌊(m.toInt : ℚ) / n.toInt⌋ r.toInt := by
  have hdivision := Word.isFloorDivision_fdiv (a := m.toInt) (Word.toInt_ne_zero_iff.2 hn)
  obtain ⟨r, hr, hfmod⟩ := Word.floorRemainder_eq (m := m) hn
  refine ⟨r, ?_, hr, ?_⟩
  · rw [modulo, if_neg hn, exact_eq_ofWord?, ← hfmod, Word.ofInt?_eq_some_iff.2 rfl]
    rfl
  · rwa [hdivision.floor_eq, hfmod]

/-- Arithmetic of integers is exact or overflows.

    * Sums, differences, products, opposites and absolute values are exact, so the last two overflow
      for the least integer alone.
    * A division faults for its divisor when this is zero, and not otherwise.
    * A quotient is the greatest integer below the exact one, or an overflow when that is none of
      sixty-four bits. A remainder lies between zero and the divisor, and is always given. Both are
      what a machine computes with words, where no operation overflows unnoticed. -/
theorem integers_exact [FunctionHandle φ] (m n : Int64) :
    (IsExact (m.toInt + n.toInt) (applyBinary .add (int m) (int n : Value φ)) ∧
      IsExact (m.toInt - n.toInt) (applyBinary .sub (int m) (int n : Value φ)) ∧
      IsExact (m.toInt * n.toInt) (applyBinary .mul (int m) (int n : Value φ))) ∧
    (IsExact (-m.toInt) (applyUnary .neg (int m : Value φ)) ∧
      (IsFault .overflowError (applyUnary .neg (int m : Value φ)) ↔ m = Int64.minValue)) ∧
    (IsExact |m.toInt| (Builtin.value .abs [(int m : Value φ)]) ∧
      (IsFault .overflowError (Builtin.value .abs [(int m : Value φ)]) ↔ m = Int64.minValue)) ∧
    (IsFault .zeroDivisionError (applyBinary .floorDiv (int m) (int n : Value φ)) ↔ n = 0) ∧
    (IsFault .zeroDivisionError (applyBinary .mod (int m) (int n : Value φ)) ↔ n = 0) ∧
    (n ≠ 0 →
      IsExact ⌊(m.toInt : ℚ) / n.toInt⌋ (applyBinary .floorDiv (int m) (int n : Value φ)) ∧
      (∃ q?, Word.floorQuotient m n = some q? ∧
        applyBinary .floorDiv (int m) (int n : Value φ) = ofWord? q?) ∧
      ∃ r : Int64, applyBinary .mod (int m) (int n : Value φ) = .ok (int r) ∧
        Word.floorRemainder m n = some r ∧
        (0 ≤ r.toInt ∧ r.toInt < n.toInt ∨ n.toInt < r.toInt ∧ r.toInt ≤ 0) ∧
        n.toInt ∣ m.toInt - r.toInt ∧
        m.toInt = n.toInt * ⌊(m.toInt : ℚ) / n.toInt⌋ + r.toInt) := by
  have hneg : IsExact (-m.toInt) (applyUnary .neg (int m : Value φ)) := isExact_exact _
  have habs : IsExact |m.toInt| (Builtin.value .abs [(int m : Value φ)]) := isExact_absolute
  refine ⟨⟨isExact_exact _, isExact_exact _, isExact_exact _⟩, ⟨hneg, ?_⟩, ⟨habs, ?_⟩,
    isFault_floorDivide_iff, isFault_modulo_iff, fun hn => ?_⟩
  · rw [hneg.isFault_iff, forall_ne_neg_iff]
    exact and_iff_right rfl
  · rw [habs.isFault_iff, forall_ne_abs_iff]
    exact and_iff_right rfl
  · obtain ⟨hexact, hword⟩ := floorDivide_eq (φ := φ) (m := m) hn
    obtain ⟨r, hr, hword', hsum, hbetween⟩ := modulo_eq (φ := φ) (m := m) hn
    exact ⟨hexact, hword, r, hr, hword', hbetween, ⟨_, by rw [← hsum, add_sub_cancel_left]⟩,
      by rw [add_comm, hsum]⟩

/-- The least integer divided by `-1` overflows, and leaves no remainder. -/
theorem integers_exact_minValue : (-1 : Int64) ≠ 0 ∧
    IsExact ⌊(Int64.minValue.toInt : ℚ) / (-1 : Int64).toInt⌋
      (applyBinary .floorDiv (int Int64.minValue) (int (-1) : Value Code)) ∧
    applyBinary .floorDiv (int Int64.minValue) (int (-1) : Value Code) = .error .overflow ∧
    ∃ r : Int64, applyBinary .mod (int Int64.minValue) (int (-1) : Value Code) = .ok (int r) ∧
      (-1 : Int64).toInt ∣ Int64.minValue.toInt - r.toInt := by
  have hn : (-1 : Int64) ≠ 0 := by decide
  obtain ⟨-, -, -, -, -, hdivide⟩ := integers_exact (φ := Code) Int64.minValue (-1)
  obtain ⟨hexact, -, r, hr, -, -, hdvd, -⟩ := hdivide hn
  exact ⟨hn, hexact, rfl, r, hr, hdvd⟩

end Value

end Linewise
