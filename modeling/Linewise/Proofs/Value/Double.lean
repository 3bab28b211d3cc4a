import Mathlib
import Linewise.Value.Basic

/-!
# Integers in floating point

A double has room for fifty-three digits, so it holds every integer below `2 ^ 53`
(`Double.Holds`). What is computed from such integers is exact as long as it is one of them: sums,
differences and products (`Double.Holds.add`, `Double.Holds.sub`, `Double.Holds.mul`), and quotients
that are rounded down (`Double.Holds.floorOf_div`).

Larger integers are rounded when they are taken for doubles, but never to zero
(`Double.floatOf_beq_zero`).
-/

namespace Linewise.Double

open Float.Model Float.Model.UnpackedFloat

variable {s : Sign} {a k N : Nat} {e : Int}

/-! ## Rounding -/

/-- What is left of a mantissa are its upper digits. -/
theorem mantissa_shiftRight (em : ExtendedMantissa) (k : Nat) :
    (em >>> k).mantissa = em.mantissa / 2 ^ k := by
  change (Nat.repeat ExtendedMantissa.shiftRightOne k em).mantissa = _
  induction k with
  | zero => exact (Nat.div_one _).symm
  | succ k ih =>
    change (Nat.repeat ExtendedMantissa.shiftRightOne k em).mantissa / 2 = _
    rw [ih, Nat.div_div_eq_div_mul, pow_succ]

/-- Digits that are zero leave no trace when they are shifted out. -/
theorem shiftRight_exact (a k : Nat) :
    (⟨a * 2 ^ k, false, false⟩ : ExtendedMantissa) >>> k = ⟨a, false, false⟩ := by
  change Nat.repeat ExtendedMantissa.shiftRightOne k ⟨a * 2 ^ k, false, false⟩ = _
  induction k generalizing a with
  | zero => simp [Nat.repeat]
  | succ k ih =>
    have hsplit : a * 2 ^ (k + 1) = a * 2 * 2 ^ k := by ring
    rw [Nat.repeat, hsplit, ih]
    simp [ExtendedMantissa.shiftRightOne]

/-- Zeros behind a number add to its length. -/
theorem log2_mul_two_pow (h : N ≠ 0) (k : Nat) : (N * 2 ^ k).log2 = N.log2 + k := by
  induction k with
  | zero => simp
  | succ k ih =>
    have hsplit : N * 2 ^ (k + 1) = 2 * (N * 2 ^ k) := by ring
    rw [hsplit, Nat.log2_two_mul (by positivity), ih, Nat.add_assoc]

/-- The exponent at which a number has fifty-three digits. -/
theorem targetExponent_eq {t : Int} (ht : -1021 ≤ t) :
    Format.binary64.targetExponent t = t - 53 := by
  simp only [Format.targetExponent, Format.mantissaBits, Format.minExponent]
  omega

/-- A mantissa with zeros to spare is shifted to 53 bits without a loss. -/
theorem shiftToTargetExponent_exact (ha : a.log2 = 52) (he : -1074 ≤ e + k) :
    shiftToTargetExponent Format.binary64 (a * 2 ^ k) e .exact = (⟨a, false, false⟩, e + k) := by
  have ha0 : a ≠ 0 := by
    rintro rfl
    simp at ha
  have htarget : Format.binary64.targetExponent (totalExponent (a * 2 ^ k) e) = e + k := by
    rw [totalExponent, log2_mul_two_pow ha0, ha, targetExponent_eq (by omega)]
    omega
  have hshift : (e + k - e).toNat = k := by omega
  simp only [shiftToTargetExponent, htarget, shiftToExponent, hshift,
    ExtendedMantissa.ofMantissaAndAccuracy, shiftRight_exact]

/-- A number whose digits fit is not rounded. -/
theorem roundWithAccuracy_exact (hpos : 0 < a) (ha : a.log2 = 52) (he : -1074 ≤ e + k) :
    roundWithAccuracy Format.binary64 s (a * 2 ^ k) e .exact = .finite s a (e + k) hpos := by
  have hagain : shiftToTargetExponent Format.binary64 a (e + k) .exact =
      (⟨a, false, false⟩, e + k) := by
    simpa using shiftToTargetExponent_exact (k := 0) (e := e + k) ha (by omega)
  have hrounded : ExtendedMantissa.roundedMantissa ⟨a, false, false⟩ = a := rfl
  simp only [roundWithAccuracy, shiftToTargetExponent_exact ha he, hrounded, hagain]
  exact dif_neg hpos.ne'

/-- Rounding leaves a mantissa or adds one to it. -/
theorem roundedMantissa_eq_or (em : ExtendedMantissa) :
    em.roundedMantissa = em.mantissa ∨ em.roundedMantissa = em.mantissa + 1 := by
  obtain ⟨mantissa, roundBit, stickyBit⟩ := em
  rw [ExtendedMantissa.roundedMantissa]
  cases roundBit <;> cases stickyBit <;>
    simp [ExtendedMantissa.accuracy, Accuracy.roundToNearestEven]
  omega

/-- A number with digits enough is rounded to fifty-three of them. It gets the next exponent when
    all of them are carried over. -/
theorem exists_roundWithAccuracy (s : Sign) {M : Nat} (accuracy : Accuracy)
    (hM : 52 ≤ M.log2) (he : -1021 ≤ e + M.log2) :
    ∃ a e' h, roundWithAccuracy Format.binary64 s M e accuracy = .finite s a e' h ∧
      a.log2 = 52 ∧ (e' = e + M.log2 - 52 ∨ e' = e + M.log2 - 51 ∧ a = 2 ^ 52) := by
  have hM0 : M ≠ 0 := by
    rintro rfl
    simp at hM
  obtain ⟨k, hk⟩ := Nat.exists_eq_add_of_le hM
  -- The first shift leaves the upper fifty-three digits.
  have htarget : Format.binary64.targetExponent (totalExponent M e) = e + k := by
    rw [totalExponent, targetExponent_eq (by omega)]
    omega
  have hshift : (e + k - e).toNat = k := by omega
  obtain ⟨em, hfirst, hmantissa⟩ : ∃ em, shiftToTargetExponent Format.binary64 M e accuracy =
      (em, e + k) ∧ em.mantissa = M / 2 ^ k := by
    refine ⟨ExtendedMantissa.ofMantissaAndAccuracy M accuracy >>> k, ?_, ?_⟩
    · simp only [shiftToTargetExponent, htarget, shiftToExponent, hshift]
    · rw [mantissa_shiftRight]
      rcases accuracy with _ | (_ | _ | _) <;> rfl
  have hdigits : 2 ^ 52 ≤ em.mantissa ∧ em.mantissa < 2 ^ 53 := by
    obtain ⟨hlo, hhi⟩ := (Nat.log2_eq_iff hM0).1 hk
    rw [hmantissa, Nat.le_div_iff_mul_le (by positivity), Nat.div_lt_iff_lt_mul (by positivity),
      ← pow_add, ← pow_add]
    exact ⟨hlo, by convert hhi using 2; omega⟩
  -- The second one takes place only when all of them are carried over.
  obtain ⟨a, j, hrounded, ha, hj⟩ : ∃ a j, em.roundedMantissa = a * 2 ^ j ∧ a.log2 = 52 ∧
      (j = 0 ∨ j = 1 ∧ a = 2 ^ 52) := by
    have hor := roundedMantissa_eq_or em
    by_cases hlt : em.roundedMantissa < 2 ^ 53
    · exact ⟨_, 0, by simp, (Nat.log2_eq_iff (by omega)).2 ⟨by omega, hlt⟩, .inl rfl⟩
    · exact ⟨2 ^ 52, 1, by omega, by decide, .inr ⟨rfl, rfl⟩⟩
  have hpos : 0 < a := Nat.pos_of_ne_zero fun h => by simp [h] at ha
  refine ⟨a, e + k + j, hpos, ?_, ha, by omega⟩
  simp only [roundWithAccuracy, hfirst, hrounded,
    shiftToTargetExponent_exact (k := j) (e := e + k) ha (by omega)]
  exact dif_neg hpos.ne'

/-! ## Unpacked integers -/

theorem natAbs_apply (s : Sign) (N : Nat) : (s.apply N).natAbs = N := by
  cases s <;> simp [Sign.apply]

theorem apply_ne_zero (s : Sign) (h : 0 < N) : s.apply N ≠ 0 := by
  rw [← Int.natAbs_ne_zero, natAbs_apply]
  exact h.ne'

/-- A number other than zero has one sign. -/
theorem sign_eq {s s' : Sign} (h : 0 < N) (heq : s.apply N = s'.apply N) : s = s' := by
  cases s <;> cases s'
  · rfl
  · exact absurd heq (by simp only [Sign.apply]; omega)
  · exact absurd heq (by simp only [Sign.apply]; omega)
  · rfl

theorem apply_mul_two_pow (s : Sign) (N k : Nat) :
    s.apply (N * 2 ^ k : Nat) = s.apply N * 2 ^ k := by
  cases s <;> simp [Sign.apply]

theorem neg_apply (s : Sign) (n : Int) : (-s).apply n = -s.apply n := by
  cases s
  · exact (Int.neg_neg _).symm
  · rfl

/-- What is taken away is added with the other sign. -/
theorem sub_eq_add_neg (u v : UnpackedFloat) :
    UnpackedFloat.sub Format.binary64 u v = UnpackedFloat.add Format.binary64 u v.neg := by
  cases u <;> cases v <;> try rfl
  rw [UnpackedFloat.sub, UnpackedFloat.neg, UnpackedFloat.add]
  simp only [neg_apply, Int.sub_eq_add_neg]

/-- The digits of a positive integer, as the upper ones of fifty-three. -/
def digits (N : Nat) : Nat := N * 2 ^ (52 - N.log2)

theorem digits_pos (h : 0 < N) : 0 < digits N := Nat.mul_pos h (by positivity)

theorem log2_lt_of_lt (h : 0 < N) (hlt : N < 2 ^ 53) : N.log2 < 53 := (Nat.log2_lt h.ne').2 hlt

theorem log2_digits (h : 0 < N) (hlt : N < 2 ^ 53) : (digits N).log2 = 52 := by
  have hlog := log2_lt_of_lt h hlt
  rw [digits, log2_mul_two_pow h.ne']
  omega

/-- A number is an integer below `2 ^ 53`. -/
inductive IsWhole : UnpackedFloat → Int → Prop
  | zero (s : Sign) : IsWhole (.zero s) 0
  | finite {s : Sign} {N : Nat} {n : Int} (h : 0 < N) (hlt : N < 2 ^ 53) (hn : s.apply N = n) :
      IsWhole (.finite s (digits N) (N.log2 - 52) (digits_pos h)) n

/-- The digits of an integer are rounded to the integer. -/
theorem roundWithAccuracy_eq (h : 0 < N) (hlt : N < 2 ^ 53) {M : Nat} {k : Nat}
    (hM : M = digits N * 2 ^ k) (he : e + k = N.log2 - 52) :
    roundWithAccuracy Format.binary64 s M e .exact =
      .finite s (digits N) (N.log2 - 52) (digits_pos h) := by
  have hexact := roundWithAccuracy_exact (s := s) (k := k) (e := e) (digits_pos h)
    (log2_digits h hlt) (by omega)
  simp only [hM, hexact, he]

/-- An integer is rounded to itself, whichever zeros follow its digits. -/
theorem round_eq (h : 0 < N) (hlt : N < 2 ^ 53) (j : Nat) :
    UnpackedFloat.round Format.binary64 s (N * 2 ^ j) (-j) =
      .finite s (digits N) (N.log2 - 52) (digits_pos h) := by
  have hlog := log2_lt_of_lt h hlt
  have htarget : Format.binary64.targetExponent (totalExponent (N * 2 ^ j) (-j)) =
      N.log2 - 52 := by
    rw [totalExponent, log2_mul_two_pow h.ne', targetExponent_eq (by omega)]
    omega
  rw [UnpackedFloat.round, htarget, decreaseExponent]
  dsimp only
  -- Either there are too many zeros, or some are put behind the ones there are.
  rcases Nat.le_total (52 - N.log2) j with hle | hle
  · refine roundWithAccuracy_eq (k := j - (52 - N.log2)) h hlt ?_ (by omega)
    rw [Int.toNat_of_nonpos (by omega), Nat.shiftLeft_zero, digits, mul_assoc, ← pow_add]
    congr 2
    omega
  · refine roundWithAccuracy_eq (k := 0) h hlt ?_ (by omega)
    have hshift : (-(j : Int) - (N.log2 - 52)).toNat = 52 - N.log2 - j := by omega
    rw [hshift, Nat.shiftLeft_eq, digits, mul_assoc, ← pow_add, pow_zero, mul_one]
    congr 2
    omega

/-- A number other than zero is rounded with its sign and its size. -/
theorem exists_normalize_eq {n : Int} (hn : n ≠ 0) (e : Int) : ∃ s, s.apply n.natAbs = n ∧
    UnpackedFloat.normalize Format.binary64 n e .positive =
      UnpackedFloat.round Format.binary64 s n.natAbs e := by
  rcases lt_or_gt_of_ne hn with hneg | hpos
  · have hnat : (-n).toNat = n.natAbs := by omega
    refine ⟨.negative, by rw [Sign.apply]; omega, ?_⟩
    rw [UnpackedFloat.normalize, Int.compare_eq_lt.2 hneg, ← hnat]
  · have hnat : n.toNat = n.natAbs := by omega
    refine ⟨.positive, by rw [Sign.apply]; omega, ?_⟩
    rw [UnpackedFloat.normalize, Int.compare_eq_gt.2 hpos, ← hnat]

/-- An integer is taken for itself, whichever zeros follow its digits. -/
theorem isWhole_normalize {n : Int} (h : n.natAbs < 2 ^ 53) (j : Nat) :
    IsWhole (UnpackedFloat.normalize Format.binary64 (n * 2 ^ j) (-j) .positive) n := by
  by_cases hn : n = 0
  · rw [hn, zero_mul]
    exact .zero _
  have hpow : (2 ^ j : Int) ≠ 0 := by positivity
  have hnat : (n * 2 ^ j).natAbs = n.natAbs * 2 ^ j := by
    rw [Int.natAbs_mul, Int.natAbs_pow]
    rfl
  obtain ⟨s, happly, hround⟩ := exists_normalize_eq (mul_ne_zero hn hpow) (-j)
  rw [hnat, apply_mul_two_pow] at happly
  rw [hround, hnat, round_eq (by omega) h]
  exact .finite (by omega) h (mul_right_cancel₀ hpow happly)

namespace IsWhole

variable {u v : UnpackedFloat} {m n : Int}

/-- The digits of an integer with a sign, at an exponent below its own. -/
theorem apply_decreaseExponent {j : Nat} (h : 0 < N) (hlt : N < 2 ^ 53) (hj : 52 - N.log2 ≤ j) :
    s.apply (decreaseExponent (digits N) (N.log2 - 52) (-j)).1 = s.apply N * 2 ^ j := by
  have hlog := log2_lt_of_lt h hlt
  have hshift : ((N.log2 : Int) - 52 - -j).toNat = j - (52 - N.log2) := by omega
  have hdigits : digits N * 2 ^ (j - (52 - N.log2)) = N * 2 ^ j := by
    rw [digits, mul_assoc, ← pow_add]
    congr 2
    omega
  rw [decreaseExponent]
  dsimp only
  rw [hshift, Nat.shiftLeft_eq, hdigits, apply_mul_two_pow]

/-- The smaller one of the exponents of two integers. -/
theorem exists_min_eq (hN : 0 < N) (hlt : N < 2 ^ 53) (hN' : 0 < a) (hlt' : a < 2 ^ 53) :
    ∃ j : Nat, min ((N.log2 : Int) - 52) (a.log2 - 52) = -j ∧ 52 - N.log2 ≤ j ∧
      52 - a.log2 ≤ j := by
  have hlog := log2_lt_of_lt hN hlt
  have hlog' := log2_lt_of_lt hN' hlt'
  exact ⟨52 - min N.log2 a.log2, by omega, by omega, by omega⟩

/-- The sum of two whole numbers is exact as long as it has at most 53 bits. -/
theorem add (hu : IsWhole u m) (hv : IsWhole v n) (h : (m + n).natAbs < 2 ^ 53) :
    IsWhole (UnpackedFloat.add Format.binary64 u v) (m + n) := by
  cases hu with
  | zero s =>
    rw [zero_add] at h ⊢
    cases hv with
    | zero s' => cases s <;> cases s' <;> exact .zero _
    | finite hN hlt hn => exact .finite hN hlt hn
  | finite hN hlt hm =>
    cases hv with
    | zero s' =>
      rw [add_zero]
      exact .finite hN hlt hm
    | finite hN' hlt' hn =>
      -- Both are brought to the smaller exponent, where their mantissas can be added.
      obtain ⟨j, hj, hle, hle'⟩ := exists_min_eq hN hlt hN' hlt'
      rw [UnpackedFloat.add, hj]
      dsimp only
      rw [apply_decreaseExponent hN hlt hle, apply_decreaseExponent hN' hlt' hle', hm, hn,
        ← Int.add_mul]
      exact isWhole_normalize h j

theorem neg (h : IsWhole u n) : IsWhole u.neg (-n) := by
  cases h with
  | zero s => exact .zero _
  | finite hN hlt hn => exact .finite hN hlt (by rw [neg_apply, hn])

/-- The difference of two held integers is held, if it is small. -/
theorem sub (hu : IsWhole u m) (hv : IsWhole v n) (h : (m - n).natAbs < 2 ^ 53) :
    IsWhole (UnpackedFloat.sub Format.binary64 u v) (m - n) := by
  rw [sub_eq_add_neg, Int.sub_eq_add_neg]
  exact hu.add hv.neg h

/-- Signs multiply as numbers do. -/
theorem apply_mul (s s' : Sign) (N N' : Nat) :
    (s * s').apply (N * N' : Nat) = s.apply N * s'.apply N' := by
  rw [Nat.cast_mul]
  cases s <;> cases s'
  · exact (Int.neg_mul_neg _ _).symm
  · exact (Int.neg_mul _ _).symm
  · exact (Int.mul_neg _ _).symm
  · rfl

/-- The product of two whole numbers is exact as long as it has at most 53 bits. -/
theorem mul (hu : IsWhole u m) (hv : IsWhole v n) (h : (m * n).natAbs < 2 ^ 53) :
    IsWhole (UnpackedFloat.mul Format.binary64 u v) (m * n) := by
  cases hu with
  | zero s =>
    rw [zero_mul]
    cases hv <;> exact .zero _
  | @finite s N _ hN hlt hm =>
    cases hv with
    | zero s' =>
      rw [mul_zero]
      exact .zero _
    | @finite s' N' _ hN' hlt' hn =>
      have hprod : 0 < N * N' := Nat.mul_pos hN hN'
      have hlt'' : N * N' < 2 ^ 53 := by
        rwa [← hm, ← hn, Int.natAbs_mul, natAbs_apply, natAbs_apply] at h
      have hlog := log2_lt_of_lt hN hlt
      have hlog' := log2_lt_of_lt hN' hlt'
      have hlog'' := log2_lt_of_lt hprod hlt''
      have hle : N.log2 + N'.log2 ≤ (N * N').log2 := by
        rw [Nat.le_log2 hprod.ne', pow_add]
        exact Nat.mul_le_mul (Nat.log2_self_le hN.ne') (Nat.log2_self_le hN'.ne')
      -- The product of the mantissas has bits to spare, and rounding takes away zeros only.
      have hround := roundWithAccuracy_eq (s := s * s') (M := digits N * digits N')
        (e := (N.log2 - 52 : Int) + (N'.log2 - 52)) (k := 52 + (N * N').log2 - N.log2 - N'.log2)
        hprod hlt'' ?_ (by omega)
      · rw [UnpackedFloat.mul, hround]
        exact .finite hprod hlt'' (by rw [apply_mul, hm, hn])
      · rw [digits, digits, digits, mul_mul_mul_comm, ← pow_add, mul_assoc (N * N'), ← pow_add]
        congr 2
        omega

/-- The whole numbers that are held exactly have at most 53 digits. -/
theorem natAbs_lt (h : IsWhole u n) : n.natAbs < 2 ^ 53 := by
  cases h with
  | zero => decide
  | finite _ hlt hn => rwa [← hn, natAbs_apply]

/-- What is one integer in two ways is equal. -/
theorem beq (hu : IsWhole u n) (hv : IsWhole v n) : u.beq v = true := by
  cases hu with
  | zero s =>
    cases hv with
    | zero s' => rfl
    | finite hN _ hn => exact absurd hn (apply_ne_zero _ hN)
  | @finite s N _ hN _ hm =>
    cases hv with
    | zero s' => exact absurd hm (apply_ne_zero _ hN)
    | @finite s' N' _ hN' _ hn =>
      obtain rfl : N = N' := by rw [← natAbs_apply s N, ← natAbs_apply s' N', hm, hn]
      obtain rfl := sign_eq hN (hm.trans hn.symm)
      exact (beq_iff_ne_notANumber_and_eq _ _).2 (by simp)

end IsWhole

/-! ## Packing -/

/-- A number of fifty-three digits is not changed by packing it. -/
theorem unpack_pack {h : 0 < a} (ha : a.log2 = 52) (hlo : -1074 ≤ e) (hhi : e ≤ 971) :
    UnpackedFloat.unpack Format.binary64 (UnpackedFloat.pack Format.binary64 (.finite s a e h)) =
      .finite s a e h := by
  have hbias : ((Format.binary64.exponentBias : Nat) : Int) = 1023 := rfl
  obtain ⟨b, hb⟩ : ∃ b : Nat, e = b - 1075 := ⟨(e + 1075).toNat, by omega⟩
  have hbiased : (e + 1023 + 52).toNat = b := by omega
  have hmantissa := (Nat.log2_eq_iff h.ne').1 ha
  have hpacked : UnpackedFloat.pack Format.binary64 (.finite s a e h) =
      packComponents Format.binary64 s (BitVec.ofNat 11 b) (BitVec.ofNat 52 a) := by
    simp only [UnpackedFloat.pack, hbias, ha, hbiased, Nat.cast_ofNat]
    rw [if_neg (by omega)]
    exact if_pos rfl
  rw [hpacked, UnpackedFloat.unpack]
  simp only [unpackMantissa_packComponents, unpackExponent_packComponents,
    unpackSign_packComponents, Sign.ofBitVec_toBitVec]
  have hexponent : (BitVec.ofNat 11 b).toNat = b := by
    rw [BitVec.toNat_ofNat]
    omega
  have hfinite : BitVec.ofNat 11 b ≠ -1#11 := by
    intro heq
    have hmax : b = 2047 := by rw [← hexponent, heq]; rfl
    omega
  have hnormal : BitVec.ofNat 11 b ≠ 0#11 := by
    intro heq
    have hmin : b = 0 := by rw [← hexponent, heq]; rfl
    omega
  -- The highest digit is not written down, as it is always one.
  have hdigits : (1#1 ++ BitVec.ofNat 52 a).toNat = a := by
    rw [BitVec.toNat_append, BitVec.toNat_ofNat, BitVec.toNat_ofNat,
      ← Nat.shiftLeft_add_eq_or_of_lt (Nat.mod_lt _ (by positivity)), Nat.shiftLeft_eq]
    omega
  rw [if_neg hfinite, if_neg hnormal]
  simp only [hdigits, hexponent, hbias]
  congr 1
  push_cast
  omega

namespace IsWhole

variable {u v : UnpackedFloat} {m n : Int}

/-- An integer is not changed by packing it. -/
theorem unpack_pack (h : IsWhole u n) :
    IsWhole (UnpackedFloat.unpack Format.binary64 (UnpackedFloat.pack Format.binary64 u)) n := by
  cases h with
  | zero s =>
    rw [UnpackedFloat.pack, unpack_packedZero]
    exact .zero s
  | finite hN hlt hn =>
    have hlog := log2_lt_of_lt hN hlt
    rw [Double.unpack_pack (log2_digits hN hlt) (by omega) (by omega)]
    exact .finite hN hlt hn

end IsWhole

/-! ## Integers -/

/-- A double is an integer below `2 ^ 53`. Zero may have either sign. -/
def Holds (x : Float) (n : Int) : Prop := IsWhole x.toModel.unpack n

variable {x y : Float} {m n : Int}

theorem IsWhole.holds {u : UnpackedFloat} (h : IsWhole u n) : Holds (.ofModel (.pack u)) n :=
  h.unpack_pack

/-- A small integer is held by the float made of it. -/
theorem holds_ofInt (h : n.natAbs < 2 ^ 53) : Holds (.ofModel (.ofInt n)) n := by
  have hwhole := isWhole_normalize h 0
  simp only [pow_zero, mul_one, Nat.cast_zero, neg_zero] at hwhole
  exact hwhole.holds

theorem holds_floatOf {n : Int64} (h : n.toInt.natAbs < 2 ^ 53) : Holds (Value.floatOf n) n.toInt :=
  holds_ofInt h

namespace Holds

theorem add (hx : Holds x m) (hy : Holds y n) (h : (m + n).natAbs < 2 ^ 53) :
    Holds (x + y) (m + n) :=
  (IsWhole.add hx hy h).holds

theorem sub (hx : Holds x m) (hy : Holds y n) (h : (m - n).natAbs < 2 ^ 53) :
    Holds (x - y) (m - n) :=
  (IsWhole.sub hx hy h).holds

theorem mul (hx : Holds x m) (hy : Holds y n) (h : (m * n).natAbs < 2 ^ 53) :
    Holds (x * y) (m * n) :=
  (IsWhole.mul hx hy h).holds

theorem beq (hx : Holds x n) (hy : Holds y n) : (x == y) = true :=
  IsWhole.beq hx hy

/-- The floor of a whole number is that number. -/
theorem floorOf (hx : Holds x n) : Holds (Value.floorOf x) n := by
  have hlt := IsWhole.natAbs_lt hx
  rw [Value.floorOf]
  split
  next s mantissa exponent hpos hunpack =>
    split
    next hneg =>
      rw [Holds, hunpack] at hx
      cases hx with
      | @finite _ N _ hN hltN hn =>
        -- A negative exponent is only there to fill the mantissa, and shifting by it loses nothing.
        have hshift : ((N.log2 : Int) - 52).natAbs = 52 - N.log2 := by omega
        have hfloor : Int.fdiv (s.apply (digits N)) (Nat.pow 2 (52 - N.log2)) = n := by
          rw [Nat.pow_eq, Nat.cast_pow, digits, apply_mul_two_pow]
          exact (Int.mul_fdiv_cancel _ (by positivity)).trans hn
        rw [hshift, hfloor]
        exact holds_ofInt hlt
    next => exact hx
  next => exact hx

end Holds

/-! ## Quotients -/

/-- The quotient of two mantissas of 53 bits: a mantissa of 53 or 54 bits, and what is lost of the
    remainder. -/
theorem divCore_eq {b : Nat} {e' : Int} (ha : a.log2 = 52) (hb : b.log2 = 52)
    (he : -1021 ≤ e - e') :
    divCore Format.binary64 a e b e' =
      (a * 2 ^ 53 / b, e - e' - 53, accuracyOfFraction (a * 2 ^ 53 % b) b) := by
  have htarget : min (e - e') (Format.binary64.targetExponent
      (totalExponent a e - totalExponent b e')) = e - e' - 53 := by
    rw [totalExponent, totalExponent, ha, hb, targetExponent_eq (by omega)]
    omega
  have hshift : (e - e' - (e - e' - 53)).toNat = 53 := by omega
  simp only [divCore, htarget, hshift, Nat.shiftLeft_eq]

namespace IsWhole

variable {u v : UnpackedFloat} {m n : Int}

/-- The integer one is a single double. -/
theorem eq_one (h : IsWhole u 1) : u = .finite .positive (2 ^ 52) (-52) (by decide) := by
  cases h with
  | @finite s N _ hN _ hn =>
    obtain rfl : N = 1 := by rw [← natAbs_apply s N, hn]; rfl
    cases s with
    | positive => rfl
    | negative => cases hn

/-- A whole number other than zero is held with all its 53 digits. -/
theorem exists_finite (h : IsWhole u n) (hn : n ≠ 0) : ∃ s N, ∃ (hN : 0 < N), N < 2 ^ 53 ∧
    s.apply (N : Nat) = n ∧ u = .finite s (digits N) (N.log2 - 52) (digits_pos hN) := by
  cases h with
  | zero => exact absurd rfl hn
  | finite hN hlt happly => exact ⟨_, _, hN, hlt, happly, rfl⟩

/-- Zero divided by a whole number is zero. -/
theorem zero_div (hu : IsWhole u 0) (hv : IsWhole v n) (hn : n ≠ 0) :
    IsWhole (UnpackedFloat.div Format.binary64 u v) 0 := by
  obtain ⟨s', N', hN', -, -, rfl⟩ := hv.exists_finite hn
  cases hu with
  | zero s => exact .zero _
  | finite hN _ happly => exact absurd happly (apply_ne_zero _ hN)

/-- A whole number divided by one is itself. -/
theorem div_one (hu : IsWhole u n) (hv : IsWhole v 1) :
    IsWhole (UnpackedFloat.div Format.binary64 u v) n := by
  rw [hv.eq_one]
  cases hu with
  | zero s => exact .zero _
  | @finite s N _ hN hlt hn =>
    have hlog := log2_lt_of_lt hN hlt
    have hquot : digits N * 2 ^ 53 / 2 ^ 52 = digits N * 2 ^ 1 := by omega
    have hrest : digits N * 2 ^ 53 % 2 ^ 52 = 0 := by omega
    rw [UnpackedFloat.div, divCore_eq (log2_digits hN hlt) (by decide) (by omega), hquot, hrest]
    dsimp only
    rw [accuracyOfFraction, if_pos rfl, roundWithAccuracy_eq hN hlt rfl (by push_cast; omega)]
    exact .finite hN hlt (by cases s <;> exact hn)

/-- The quotient of one by an integer is a fraction, or one itself. -/
theorem exists_one_div (hN : 0 < N) (hlt : N < 2 ^ 53) : ∃ (a : Nat) (k : Nat) (h : 0 < a),
    UnpackedFloat.div Format.binary64 (.finite .positive (2 ^ 52) (-52) (by decide))
        (.finite s (digits N) (N.log2 - 52) (digits_pos hN)) = .finite s a (-k) h ∧
      a.log2 = 52 ∧ 0 < k ∧ k ≤ 1074 ∧ a ≤ 2 ^ k ∧ (N ≠ 1 → a < 2 ^ k) := by
  have hlog := log2_lt_of_lt hN hlt
  have hdigits := (Nat.log2_eq_iff (digits_pos hN).ne').1 (log2_digits hN hlt)
  have hone : N ≠ 1 → 1 ≤ N.log2 := fun h => (Nat.le_log2 hN.ne').2 (by omega)
  have hsign : Sign.positive / s = s := by cases s <;> rfl
  have hexponent : (-52 : Int) - (N.log2 - 52) - 53 = -(N.log2 + 53 : Nat) := by omega
  rw [UnpackedFloat.div, divCore_eq (by decide) (log2_digits hN hlt) (by omega), hsign, hexponent]
  dsimp only
  by_cases heq : digits N = 2 ^ 52
  · -- The divisor is a power of two, so the quotient is exact.
    have hround := roundWithAccuracy_exact (s := s) (a := 2 ^ 52) (k := 1)
      (e := -(N.log2 + 53 : Nat)) (by decide) (by decide) (by omega)
    have hle : 2 ^ 52 ≤ 2 ^ (N.log2 + 52) := Nat.pow_le_pow_right (by decide) (by omega)
    refine ⟨2 ^ 52, N.log2 + 52, by decide, ?_, by decide, by omega, by omega, hle,
      fun h => Nat.pow_lt_pow_right (by decide) (by have := hone h; omega)⟩
    have hexponent' : (-(N.log2 + 53 : Nat) : Int) + (1 : Nat) = -(N.log2 + 52 : Nat) := by omega
    have hquot : 2 ^ 52 * 2 ^ 53 / 2 ^ 52 = 2 ^ 52 * 2 ^ 1 := by decide
    rw [heq, hquot, accuracyOfFraction, if_pos (by decide)]
    simpa only [hexponent'] using hround
  -- Otherwise the quotient has 53 digits, and rounding may carry it to the next power of two.
  · have hlog' := hone (by rintro rfl; exact heq (by decide))
    have hquot : (2 ^ 52 * 2 ^ 53 / digits N).log2 = 52 := by
      have hlo : 2 ^ 52 ≤ 2 ^ 52 * 2 ^ 53 / digits N :=
        (Nat.le_div_iff_mul_le (digits_pos hN)).2 (by omega)
      have hhi : 2 ^ 52 * 2 ^ 53 / digits N < 2 ^ 53 :=
        (Nat.div_lt_iff_lt_mul (digits_pos hN)).2 (by omega)
      exact (Nat.log2_eq_iff (by omega)).2 ⟨hlo, hhi⟩
    obtain ⟨a, e', h, hround, ha, he'⟩ := exists_roundWithAccuracy (e := -(N.log2 + 53 : Nat)) s
      (accuracyOfFraction (2 ^ 52 * 2 ^ 53 % digits N) (digits N)) hquot.ge (by omega)
    have hbound := ((Nat.log2_eq_iff h.ne').1 ha).2
    rw [hround]
    rcases he' with rfl | ⟨rfl, rfl⟩
    · have hlt : a < 2 ^ (N.log2 + 53) :=
        hbound.trans_le (Nat.pow_le_pow_right (by decide) (by omega))
      have hexponent' : -(N.log2 + 53 : Nat) + ((2 ^ 52 * 2 ^ 53 / digits N).log2 : Int) - 52 =
          -(N.log2 + 53 : Nat) := by omega
      refine ⟨a, N.log2 + 53, h, ?_, ha, by omega, by omega, hlt.le, fun _ => hlt⟩
      simp only [hexponent']
    · have hlt : 2 ^ 52 < 2 ^ (N.log2 + 52) := Nat.pow_lt_pow_right (by decide) (by omega)
      have hexponent' : -(N.log2 + 53 : Nat) + ((2 ^ 52 * 2 ^ 53 / digits N).log2 : Int) - 51 =
          -(N.log2 + 52 : Nat) := by omega
      refine ⟨2 ^ 52, N.log2 + 52, h, ?_, ha, by omega, by omega, hlt.le, fun _ => hlt⟩
      simp only [hexponent']

end IsWhole

/-- A negative fraction of absolute value at most one has the floor minus one. -/
theorem fdiv_eq_neg_one {b c : Nat} (hb : 0 < b) (hbc : b ≤ c) : Int.fdiv (-b) c = -1 := by
  have hneg : Int.fdiv (-b) c < 0 := Int.fdiv_neg_of_neg_of_pos (by omega) (by omega)
  have hlt : (-b : Int) < (Int.fdiv (-b) c + 1) * c := Int.lt_fdiv_add_one_mul_self _ (by omega)
  by_contra hne
  have hle : (Int.fdiv (-b) c + 1) * c ≤ -1 * c :=
    Int.mul_le_mul_of_nonneg_right (by omega) (by omega)
  omega

/-- A fraction is rounded down to zero or to minus one, as is the quotient that it stands for. -/
theorem fdiv_fraction (hpos : 0 < a) (hle : a ≤ 2 ^ k) (hlt : N ≠ 1 → a < 2 ^ k) (hN : 0 < N)
    (hne : s.apply N ≠ 1) : Int.fdiv (s.apply a) (2 ^ k) = Int.fdiv 1 (s.apply N) ∧
      (Int.fdiv 1 (s.apply N)).natAbs ≤ 1 := by
  have hpow : (2 ^ k : Int) = (2 ^ k : Nat) := by push_cast; rfl
  cases s with
  | positive =>
    have hN1 : N ≠ 1 := by
      rintro rfl
      exact hne rfl
    have hlt' := hlt hN1
    have hone : Int.fdiv 1 N = 0 := Int.fdiv_eq_zero_of_lt (by decide) (by omega)
    rw [Sign.apply, Sign.apply, hpow, hone, Int.fdiv_eq_zero_of_lt (by omega) (by omega)]
    decide
  | negative =>
    have hone : Int.fdiv 1 (-N) = -1 := by
      simpa using (Int.neg_fdiv_neg (-1) N).trans (fdiv_eq_neg_one one_pos hN)
    rw [Sign.apply, Sign.apply, hpow, hone, fdiv_eq_neg_one hpos hle]
    decide

namespace Holds

/-- A quotient is rounded down to the right integer when its dividend is zero or one or its divisor
    is one. -/
theorem floorOf_div (hx : Holds x m) (hy : Holds y n) (hn : n ≠ 0) (h : m = 0 ∨ m = 1 ∨ n = 1) :
    Holds (Value.floorOf (x / y)) (m.fdiv n) := by
  by_cases hone : n = 1
  · subst hone
    rw [Int.fdiv_one]
    exact (IsWhole.div_one hx hy).holds.floorOf
  rcases h with rfl | rfl | rfl
  · rw [Int.zero_fdiv]
    exact (IsWhole.zero_div hx hy hn).holds.floorOf
  · obtain ⟨s, N, hN, hlt, happly, hunpack⟩ := IsWhole.exists_finite hy hn
    obtain ⟨a, k, ha, hdiv, hlog, hk, hk', hle, hlt'⟩ := IsWhole.exists_one_div (s := s) hN hlt
    have hquot : (x / y).toModel.unpack = .finite s a (-k) ha := by
      change UnpackedFloat.unpack Format.binary64 (UnpackedFloat.pack Format.binary64
        (UnpackedFloat.div Format.binary64 x.toModel.unpack y.toModel.unpack)) = _
      rw [IsWhole.eq_one hx, hunpack, hdiv, unpack_pack hlog (by omega) (by omega)]
    obtain ⟨hfdiv, hbound⟩ := fdiv_fraction (s := s) ha hle hlt' hN (happly ▸ hone)
    rw [happly] at hfdiv hbound
    -- The quotient is a fraction of absolute value at most one, whose floor is that of the
    -- integers.
    have hfloor : Value.floorOf (x / y) = .ofModel (.ofInt (Int.fdiv 1 n)) := by
      rw [Value.floorOf, hquot]
      dsimp only
      rw [if_pos (by omega), Int.natAbs_neg, Int.natAbs_natCast, Nat.pow_eq, Nat.cast_pow,
        Nat.cast_ofNat, hfdiv]
    rw [hfloor]
    exact holds_ofInt (by omega)
  · exact absurd rfl hone

end Holds

/-! ## Zero -/

/-- An integer that is not zero is rounded to a number that is not zero either. -/
theorem exists_round (s : Sign) (hN : 0 < N) (hlt : N < 2 ^ 64) : ∃ a e h,
    UnpackedFloat.round Format.binary64 s N 0 = .finite s a e h ∧
      a.log2 = 52 ∧ -1074 ≤ e ∧ e ≤ 971 := by
  by_cases hexact : N < 2 ^ 53
  · have hlog := log2_lt_of_lt hN hexact
    have hround := round_eq (s := s) hN hexact 0
    rw [pow_zero, mul_one, Nat.cast_zero, neg_zero] at hround
    exact ⟨_, _, _, hround, log2_digits hN hexact, by omega, by omega⟩
  · have hlog : 53 ≤ N.log2 := (Nat.le_log2 hN.ne').2 (by omega)
    have hlog' : N.log2 < 64 := (Nat.log2_lt hN.ne').2 hlt
    have htarget : Format.binary64.targetExponent (totalExponent N 0) = N.log2 - 52 := by
      rw [totalExponent, targetExponent_eq (by omega)]
      omega
    have hshift : (0 - ((N.log2 : Int) - 52)).toNat = 0 := by omega
    obtain ⟨a, e, h, hround, ha, he⟩ :=
      exists_roundWithAccuracy (e := 0) s .exact (M := N) (by omega) (by omega)
    refine ⟨a, e, h, ?_, ha, by omega, by omega⟩
    rw [UnpackedFloat.round, htarget, decreaseExponent, hshift]
    exact hround

/-- Only zero is taken for zero. -/
theorem floatOf_beq_zero (n : Int64) : (Value.floatOf n == 0.0) = decide (n = 0) := by
  by_cases hn : n = 0
  · subst hn
    decide
  have hne : n.toInt ≠ 0 := fun h => hn (Int64.toInt_inj.1 h)
  have hlo := Int64.le_toInt n
  have hhi := Int64.toInt_lt n
  obtain ⟨s, -, hnormalize⟩ := exists_normalize_eq hne 0
  obtain ⟨a, e, h, hround, ha, he, he'⟩ :=
    exists_round (N := n.toInt.natAbs) s (by omega) (by omega)
  have hunpack : (Value.floatOf n).toModel.unpack = .finite s a e h := by
    change UnpackedFloat.unpack Format.binary64 (UnpackedFloat.pack Format.binary64
      (UnpackedFloat.normalize Format.binary64 n.toInt 0 .positive)) = _
    rw [hnormalize, hround, unpack_pack ha he he']
  rw [decide_eq_false hn]
  change UnpackedFloat.beq (Value.floatOf n).toModel.unpack (.zero .positive) = false
  rw [hunpack]
  cases s <;> rfl

end Linewise.Double
