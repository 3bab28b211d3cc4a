import Linewise.Proofs.Value.Double
import Linewise.Proofs.Value.Integer
import Linewise.Value.Subscript

/-!
# Truth values as numbers

Truth values stand for the integers one and zero, and most of the language takes them for these
(`Value.CountsAs`): the sign, `abs`, `int`, `range` and subscripts.

The operators do not. An operand that is a truth value makes them compute in floating point, so that
the result is never the integer that one and zero would give (`Value.truthValues_floating`). It is a
double of the same size, though, as long as the integers in question are below `2 ^ 53`, and a
division faults for the same divisors.
-/

namespace Linewise.Value

variable {φ : Type} {v w : Value φ} {m n : Int64} {op : BinaryOp}

/-- Two operands, of which one or both are truth values, and the integers that they stand for. -/
inductive TruthOperands : Value φ → Value φ → Int64 → Int64 → Prop
  | left (b : Bool) (n : Int64) : TruthOperands (bool b) (int n) (ofBit b) n
  | right (m : Int64) (b : Bool) : TruthOperands (int m) (bool b) m (ofBit b)
  | both (b c : Bool) : TruthOperands (bool b) (bool c) (ofBit b) (ofBit c)

/-! ## In place of an integer -/

/-- A value is taken for an integer wherever one is asked for, the operators apart. -/
structure CountsAs [FunctionHandle φ] (v : Value φ) (n : Int64) : Prop where
  neg : applyUnary .neg v = applyUnary .neg (int n)
  abs : Builtin.value .abs [v] = Builtin.value .abs [int n]
  toInt : Builtin.value .int [v] = Builtin.value .int [int n]
  range : ∀ before after : List (Value φ),
    Builtin.value .range (before ++ v :: after) = Builtin.value .range (before ++ int n :: after)
  subscript : ∀ object : Value φ, object.subscript v = object.subscript (int n)
  replaceAt : ∀ object item : Value φ, object.replaceAt v item = object.replaceAt (int n) item

theorem countsAs_int [FunctionHandle φ] (n : Int64) : CountsAs (int n : Value φ) n :=
  ⟨rfl, rfl, rfl, fun _ _ => rfl, fun _ => rfl, fun _ _ => rfl⟩

/-- A truth value counts as zero or one, as a floating-point number. -/
theorem countsAs_bool [FunctionHandle φ] (b : Bool) : CountsAs (bool b : Value φ) (ofBit b) where
  neg := by cases b <;> rfl
  abs := by cases b <;> rfl
  toInt := rfl
  range before after := by
    have hargument : rangeArgument (bool b : Value φ) = rangeArgument (int (ofBit b) : Value φ) :=
      rfl
    simp only [Builtin.value, Value.range, List.mapM_append, List.mapM_cons, hargument]
  subscript object := by cases object <;> rfl
  replaceAt object item := by cases object <;> rfl

/-- Both operands count as floating-point numbers. -/
theorem TruthOperands.countsAs [FunctionHandle φ] (h : TruthOperands v w m n) :
    v.CountsAs m ∧ w.CountsAs n := by
  cases h with
  | left b n => exact ⟨countsAs_bool b, countsAs_int n⟩
  | right m b => exact ⟨countsAs_int m, countsAs_bool b⟩
  | both b c => exact ⟨countsAs_bool b, countsAs_bool c⟩

/-! ## In floating point -/

/-- The operators that are exact on integers. -/
def integerOperators : List BinaryOp := [.add, .sub, .mul, .floorDiv, .mod]

/-- A result has been computed in floating point in place of an operator on integers.

    * It is what comes of the doubles for the two integers: a double, or a fault for a divisor of
      zero. So it is not what comes of the integers themselves.
    * There is a fault for a divisor of zero exactly where there is one for the integers.
    * Below `2 ^ 53` it is equal to the integer in whose place it stands. -/
structure IsFloated [FunctionHandle φ] (op : BinaryOp) (m n : Int64)
    (result : Except Cause (Value φ)) : Prop where
  eq_floats : result = applyBinary op (float (floatOf m)) (float (floatOf n))
  float_or_fault : (∃ x, result = .ok (float x)) ∨ IsFault .zeroDivisionError result
  fault_iff : IsFault .zeroDivisionError result ↔
    IsFault .zeroDivisionError (applyBinary op (int m) (int n : Value φ))
  ne_integer : result ≠ applyBinary op (int m) (int n)
  equal_integer : ∀ k : Int64, m.toInt.natAbs < 2 ^ 53 → n.toInt.natAbs < 2 ^ 53 →
    k.toInt.natAbs < 2 ^ 53 → applyBinary op (int m) (int n : Value φ) = .ok (int k) →
    ∃ x, result = .ok (float x) ∧ equal (float x) (int k : Value φ) = true

/-- Two operands that are doubles, or taken for doubles. -/
inductive FloatOperands : Value φ → Value φ → Int64 → Int64 → Prop
  | truth {v w : Value φ} {m n : Int64} : TruthOperands v w m n → FloatOperands v w m n
  | floats (m n : Int64) : FloatOperands (float (floatOf m)) (float (floatOf n)) m n

theorem toFloat?_bool (b : Bool) : (bool b : Value φ).toFloat? = some (floatOf (ofBit b)) := by
  cases b <;> rfl

theorem floatPair_eq (op : BinaryOp) (h : FloatOperands v w m n) :
    floatPair op v w = .ok (floatOf m, floatOf n) := by
  rcases h with (_ | _ | _) | _ <;> simp only [floatPair, toFloat?_bool] <;> rfl

/-- Operands that are not both integers are computed in floating point. -/
theorem arithmetic_eq {onInt : Int → Int → Int} {onFloat : Float → Float → Float}
    (h : FloatOperands v w m n) :
    arithmetic op onInt onFloat v w = .ok (float (onFloat (floatOf m) (floatOf n))) := by
  have hpair := floatPair_eq op h
  rcases h with (_ | _ | _) | _ <;> simp only [arithmetic, hpair] <;> rfl

/-- A truth value and an integer are divided as two floats. -/
theorem divisionPair_eq {division : Division} (h : FloatOperands v w m n) :
    divisionPair op division v w =
      if n = 0 then .error (.zeroDivision division) else .ok (floatOf m, floatOf n) := by
  rw [divisionPair, floatPair_eq op h]
  change (if (floatOf n == 0.0) = true then _ else _) = _
  simp only [Double.floatOf_beq_zero, decide_eq_true_eq]

/-- A quotient in floating point is rounded down. -/
theorem floorDivide_eq_ite (h : FloatOperands v w m n) :
    floorDivide v w = if n = 0 then .error (.zeroDivision .floatFloor)
      else .ok (float (floorOf (floatOf m / floatOf n))) := by
  have hdivide : floorDivide v w = divisionPair .floorDiv .floatFloor v w >>= fun p =>
      pure (float (floorOf (p.1 / p.2))) := by rcases h with (_ | _ | _) | _ <;> rfl
  rw [hdivide, divisionPair_eq h]
  split <;> rfl

/-- A remainder in floating point is what the rounded quotient leaves. -/
theorem modulo_eq_ite (h : FloatOperands v w m n) :
    modulo v w = if n = 0 then .error (.zeroDivision .floatRemainder)
      else .ok (float (floatOf m - floatOf n * floorOf (floatOf m / floatOf n))) := by
  have hmodulo : modulo v w = divisionPair .mod .floatRemainder v w >>= fun p =>
      pure (float (p.1 - p.2 * floorOf (p.1 / p.2))) := by rcases h with (_ | _ | _) | _ <;> rfl
  rw [hmodulo, divisionPair_eq h]
  split <;> rfl

theorem add_eq (h : FloatOperands v w m n) : add v w = .ok (float (floatOf m + floatOf n)) := by
  have hadd : add v w = arithmetic .add (· + ·) (· + ·) v w := by
    rcases h with (_ | _ | _) | _ <;> rfl
  rw [hadd, arithmetic_eq h]

theorem multiply_eq (h : FloatOperands v w m n) :
    multiply v w = .ok (float (floatOf m * floatOf n)) := by
  have hmultiply : multiply v w = arithmetic .mul (· * ·) (· * ·) v w := by
    rcases h with (_ | _ | _) | _ <;> rfl
  rw [hmultiply, arithmetic_eq h]

theorem exact_eq_ok_iff {z : Int} {k : Int64} :
    (exact z : Except Cause (Value φ)) = .ok (int k) ↔ k.toInt = z := by
  rw [exact_eq_ofWord?, ← Word.ofInt?_eq_some_iff]
  cases Word.ofInt? z <;> simp [ofWord?]

theorem exact_ne_ok_float {z : Int} {x : Float} :
    (exact z : Except Cause (Value φ)) ≠ .ok (float x) := by
  rw [exact_eq_ofWord?]
  cases Word.ofInt? z <;> nofun

theorem ofBit_eq_or (b : Bool) : ofBit b = 0 ∨ ofBit b = 1 := by
  cases b
  · exact .inl rfl
  · exact .inr rfl

variable [FunctionHandle φ]

/-- A result in floating point in place of an exact one. Both are faults when the divisor is
    zero. -/
theorem isFloated_of (fails : Prop) [Decidable fails] (division : Division) {x : Float} {z : Int}
    (h : TruthOperands v w m n) (hdivision : division ≠ .integer)
    (hresult : ∀ {v w : Value φ}, FloatOperands v w m n → applyBinary op v w =
      if fails then .error (.zeroDivision division) else .ok (float x))
    (hint : applyBinary op (int m) (int n : Value φ) =
      if fails then .error (.zeroDivision .integer) else exact z)
    (hholds : ¬fails → m.toInt.natAbs < 2 ^ 53 → n.toInt.natAbs < 2 ^ 53 → z.natAbs < 2 ^ 53 →
      Double.Holds x z) : IsFloated op m n (applyBinary op v w) := by
  have hfloats : applyBinary op (float (floatOf m)) (float (floatOf n) : Value φ) = _ :=
    hresult (.floats m n)
  by_cases hfails : fails
  · rw [if_pos hfails] at hfloats hint
    have htruth : applyBinary op v w = .error (.zeroDivision division) :=
      (hresult (.truth h)).trans (if_pos hfails)
    have hfault (division : Division) :
        IsFault .zeroDivisionError (.error (.zeroDivision division) : Except Cause (Value φ)) :=
      ⟨_, rfl, rfl⟩
    -- Both the floats and the integers fault, and the kinds of the faults agree.
    rw [htruth]
    refine ⟨hfloats.symm, .inr (hfault _), ?_, ?_, ?_⟩
    · rw [hint]
      exact iff_of_true (hfault _) (hfault _)
    · rw [hint]
      rintro ⟨⟩
      exact hdivision rfl
    · rintro k - - - hk
      cases hint.symm.trans hk
  · rw [if_neg hfails] at hfloats hint
    have htruth : applyBinary op v w = .ok (float x) :=
      (hresult (.truth h)).trans (if_neg hfails)
    rw [htruth]
    refine ⟨hfloats.symm, .inl ⟨x, rfl⟩, ?_, ?_, ?_⟩
    · rw [hint, (isExact_exact z).isFault_iff]
      exact iff_of_false nofun nofun
    · rw [hint]
      exact exact_ne_ok_float.symm
    · intro k hm hn hk hint'
      obtain rfl := exact_eq_ok_iff.1 (hint.symm.trans hint')
      exact ⟨x, rfl, (hholds hfails hm hn hk).beq (Double.holds_floatOf hk)⟩

omit [FunctionHandle φ] in
/-- A truth value is a divisor of one, or a dividend of zero or one. -/
theorem TruthOperands.eq_or (h : TruthOperands v w m n) (hn : n ≠ 0) :
    m.toInt = 0 ∨ m.toInt = 1 ∨ n.toInt = 1 := by
  cases h with
  | left b n | both b c => rcases ofBit_eq_or b with hb | hb <;> simp [hb]
  | right m b => rcases ofBit_eq_or b with hb | hb <;> simp_all

/-- The remainder in floating point is exact, as is what is taken away from the dividend. -/
theorem holds_modulo (h : m.toInt = 0 ∨ m.toInt = 1 ∨ n.toInt = 1) (hn : n ≠ 0)
    (hm' : m.toInt.natAbs < 2 ^ 53) (hn' : n.toInt.natAbs < 2 ^ 53) :
    Double.Holds (floatOf m - floatOf n * floorOf (floatOf m / floatOf n))
      (m.toInt.fmod n.toInt) := by
  obtain ⟨hsum, hrest⟩ :=
    Word.isFloorDivision_fdiv (a := m.toInt) (Word.toInt_ne_zero_iff.2 hn)
  have hquot := (Double.holds_floatOf hm').floorOf_div (Double.holds_floatOf hn')
    (Word.toInt_ne_zero_iff.2 hn) h
  have hprod := (Double.holds_floatOf hn').mul hquot (by omega)
  have hdifference := (Double.holds_floatOf hm').sub hprod (by omega)
  rwa [← Int.fmod_def] at hdifference

/-- Truth values count as integers but for the operators. -/
theorem truthValues_floating (h : TruthOperands v w m n) (hop : op ∈ integerOperators) :
    v.CountsAs m ∧ w.CountsAs n ∧ IsFloated op m n (applyBinary op v w) := by
  obtain ⟨hleft, hright⟩ := h.countsAs
  refine ⟨hleft, hright, ?_⟩
  simp only [integerOperators, List.mem_cons, List.not_mem_nil, or_false] at hop
  rcases hop with rfl | rfl | rfl | rfl | rfl
  · exact isFloated_of False .quotient h (by decide) (fun h => add_eq h) rfl fun _ hm hn hz =>
      (Double.holds_floatOf hm).add (Double.holds_floatOf hn) hz
  · exact isFloated_of False .quotient h (by decide) (fun h => arithmetic_eq h) rfl
      fun _ hm hn hz => (Double.holds_floatOf hm).sub (Double.holds_floatOf hn) hz
  · exact isFloated_of False .quotient h (by decide) (fun h => multiply_eq h) rfl
      fun _ hm hn hz => (Double.holds_floatOf hm).mul (Double.holds_floatOf hn) hz
  · exact isFloated_of (n = 0) .floatFloor h (by decide) (fun h => floorDivide_eq_ite h) rfl
      fun hzero hm hn _ => (Double.holds_floatOf hm).floorOf_div (Double.holds_floatOf hn)
        (Word.toInt_ne_zero_iff.2 hzero) (h.eq_or hzero)
  · exact isFloated_of (n = 0) .floatRemainder h (by decide) (fun h => modulo_eq_ite h) rfl
      fun hzero hm hn _ => holds_modulo (h.eq_or hzero) hzero hm hn

/-- An integer divided by a truth value is a double that is equal to it. -/
theorem truthValues_floating_floorDiv :
    TruthOperands (int 7) (bool true : Value Code) 7 (ofBit true) ∧
    BinaryOp.floorDiv ∈ integerOperators ∧
    ∃ x, applyBinary .floorDiv (int 7) (bool true : Value Code) = .ok (float x) ∧
      equal (float x) (int 7 : Value Code) = true := by
  have hoperands : TruthOperands (int 7) (bool true : Value Code) 7 (ofBit true) := .right 7 true
  have hop : BinaryOp.floorDiv ∈ integerOperators := by decide
  obtain ⟨-, -, hfloated⟩ := truthValues_floating hoperands hop
  exact ⟨hoperands, hop, hfloated.equal_integer 7 (by decide) (by decide) (by decide) rfl⟩

/-- The sum of a truth value and one is a double, not the integer that is the sum of one and one. -/
theorem true_add_one :
    applyBinary .add (bool true) (int 1 : Value Code) = .ok (float 2.0) ∧
    applyBinary .add (int (ofBit true)) (int 1 : Value Code) = .ok (int 2) ∧
    applyBinary .add (bool true) (int 1 : Value Code) ≠
      applyBinary .add (int (ofBit true)) (int 1) := by
  have hsum : (1.0 : Float) + floatOf 1 = 2.0 := by decide +kernel
  have hfloat : applyBinary .add (bool true) (int 1 : Value Code) = .ok (float 2.0) :=
    congrArg (Except.ok ∘ float) hsum
  exact ⟨hfloat, rfl, hfloat ▸ nofun⟩

end Linewise.Value
