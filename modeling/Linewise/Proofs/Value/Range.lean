import Mathlib
import Linewise.Value.Sequence

/-!
# Ranges

A range is an arithmetic progression: the terms `start + k * step` as far as they lie in front of
the stop (`IsProgression`). What `range` computes it from saturates, so it gives the progression up
to a *horizon* instead, the stop or the place at the greatest integer's distance from the start,
whichever comes first (`range_eq`). A stop within that distance is the horizon, and then the range
is exact: it has all terms and no others, and is refused just when there are too many of them.

The distance from the start to the stop is the only thing that saturates to any effect. The items
never leave the integers, as they lie between the start and the stop, and a step whose absolute
value is not an integer takes one step in both readings.
-/

namespace Linewise.Value

variable {φ : Type}

/-! ## Progressions -/

/-- A number lies strictly in front of a bound, in the direction of a step. -/
def Precedes (step n bound : Int) : Prop :=
  if 0 < step then n < bound else bound < n

instance (step n bound : Int) : Decidable (Precedes step n bound) :=
  inferInstanceAs (Decidable (if 0 < step then n < bound else bound < n))

/-- All terms of a progression that lie in front of a bound, in order. -/
def IsProgression (start bound step : Int) (terms : List Int) : Prop :=
  ∀ k : Nat, terms[k]? =
    if Precedes step (start + k * step) bound then some (start + k * step) else Option.none

/-- The distance from a start to a stop, in the direction of a step. -/
def distance (start stop step : Int) : Int :=
  if 0 < step then stop - start else start - stop

/-- Where a range ends: at its stop, or at the greatest integer's distance from its start. -/
def horizon (start stop step : Int) : Int :=
  if 0 < step then min stop (start + Int64.maxValue.toInt)
  else max stop (start - Int64.maxValue.toInt)

variable {start stop step : Int}

theorem horizon_eq_stop_iff :
    horizon start stop step = stop ↔ distance start stop step ≤ Int64.maxValue.toInt := by
  rw [horizon, distance]
  split <;> omega

/-- A term lies in front of a bound when the steps up to it are shorter than the distance. -/
theorem precedes_iff (hstep : step ≠ 0) (k : Nat) (bound : Int) :
    Precedes step (start + k * step) bound ↔ k * |step| < distance start bound step := by
  rw [Precedes, distance]
  split
  next hpos => rw [abs_of_pos hpos]; omega
  next hneg =>
    rw [abs_of_neg (by omega)]
    have hmul : (k : Int) * -step = -(k * step) := mul_neg _ _
    omega

/-- A range goes as far as its stop, but no farther than the greatest integer. -/
theorem distance_horizon : distance start (horizon start stop step) step =
    min (distance start stop step) Int64.maxValue.toInt := by
  rw [horizon, distance, distance]
  split <;> omega

/-! ## Saturation -/

theorem saturate_of_nonneg {n : Int} (hn : 0 ≤ n) : saturate n = min n Int64.maxValue.toInt := by
  have hmin : Int64.minValue.toInt ≤ 0 := by decide
  have hmax : 0 ≤ Int64.maxValue.toInt := by decide
  rw [saturate]
  omega

theorem saturate_eq_self {n : Int} (hmin : Int64.minValue.toInt ≤ n)
    (hmax : n ≤ Int64.maxValue.toInt) : saturate n = n := by
  rw [saturate]
  omega

theorem saturate_nonpos {n : Int} (hn : n ≤ 0) : saturate n ≤ 0 := by
  have hmin : Int64.minValue.toInt ≤ 0 := by decide
  rw [saturate]
  omega

/-- A divisor beyond a bound may be replaced by the bound where nothing above it is divided. -/
theorem div_min {n d bound : Int} (hn : 0 ≤ n) (hbound : n < bound) :
    n / min d bound = n / d := by
  rcases le_total d bound with hle | hle
  · rw [min_eq_left hle]
  · rw [min_eq_right hle, Int.ediv_eq_zero_of_lt hn hbound,
      Int.ediv_eq_zero_of_lt hn (hbound.trans_le hle)]

/-! ## The number of items -/

/-- A range has the items that lie in front of its horizon. -/
theorem lt_rangeCount_iff (hstep : step ≠ 0) (k : Nat) : k < rangeCount start stop step ↔
    Precedes step (start + k * step) (horizon start stop step) := by
  have habs : 0 < |step| := abs_pos.2 hstep
  have hmax : 0 < Int64.maxValue.toInt := by decide
  rw [precedes_iff hstep, distance_horizon, rangeCount]
  change k < (if saturate (distance start stop step) ≤ 0 then 0 else _) ↔ _
  rcases le_or_gt (distance start stop step) 0 with hspan | hspan
  · have hnonneg : 0 ≤ (k : Int) * |step| := mul_nonneg (Int.natCast_nonneg k) habs.le
    rw [if_pos (saturate_nonpos hspan)]
    omega
  · have hsaturate := saturate_of_nonneg hspan.le
    have hpos : 0 < min (distance start stop step) Int64.maxValue.toInt := lt_min hspan hmax
    change k < (if _ then 0 else
      ((saturate (distance start stop step) - 1) / saturate step.natAbs + 1).toNat) ↔ _
    rw [hsaturate, if_neg (not_le.2 hpos), Int.natCast_natAbs, saturate_of_nonneg habs.le,
      div_min (by omega) (by omega)]
    calc k < ((min (distance start stop step) Int64.maxValue.toInt - 1) / |step| + 1).toNat
      _ ↔ (k : Int) ≤ (min (distance start stop step) Int64.maxValue.toInt - 1) / |step| := by
        omega
      _ ↔ k * |step| ≤ min (distance start stop step) Int64.maxValue.toInt - 1 :=
        Int.le_ediv_iff_mul_le habs
      _ ↔ k * |step| < min (distance start stop step) Int64.maxValue.toInt := Int.le_sub_one_iff

/-! ## The items -/

/-- The terms of a range between integers are integers. -/
theorem mem_bounds_of_precedes {start stop step : Int64} {k : Nat}
    (hk : Precedes step.toInt (start.toInt + k * step.toInt)
      (horizon start.toInt stop.toInt step.toInt)) :
    Int64.minValue.toInt ≤ start.toInt + k * step.toInt ∧
      start.toInt + k * step.toInt ≤ Int64.maxValue.toInt := by
  have hstart := And.intro (Int64.minValue_le_toInt start) (Int64.toInt_le start)
  have hstop := And.intro (Int64.minValue_le_toInt stop) (Int64.toInt_le stop)
  rw [Precedes, horizon] at hk
  split at hk
  next hpos =>
    have hmul : 0 ≤ (k : Int) * step.toInt := mul_nonneg (Int.natCast_nonneg k) hpos.le
    omega
  next hneg =>
    have hmul : (k : Int) * step.toInt ≤ 0 :=
      mul_nonpos_of_nonneg_of_nonpos (Int.natCast_nonneg k) (not_lt.1 hneg)
    omega

/-- The items of a range, as integers. -/
def terms (start stop step : Int64) : List Int64 :=
  (List.range (rangeCount start.toInt stop.toInt step.toInt)).map fun (k : Nat) =>
    Int64.ofInt (start.toInt + k * step.toInt)

@[simp]
theorem length_terms (start stop step : Int64) :
    (terms start stop step).length = rangeCount start.toInt stop.toInt step.toInt := by
  simp [terms]

/-- The items of a range are the terms that it is supposed to have. -/
theorem rangeItems_eq {start stop step : Int64} (hstep : step.toInt ≠ 0) :
    rangeItems start.toInt step.toInt (rangeCount start.toInt stop.toInt step.toInt) =
      (terms start stop step).map (int (φ := φ)) := by
  rw [rangeItems, terms, List.map_map]
  refine List.map_congr_left fun k hk => ?_
  obtain ⟨hmin, hmax⟩ :=
    mem_bounds_of_precedes ((lt_rangeCount_iff hstep k).1 (List.mem_range.1 hk))
  rw [saturate_eq_self hmin hmax]
  rfl

/-- The items of a range are a progression that ends at its horizon. -/
theorem isProgression_terms {start stop step : Int64} (hstep : step.toInt ≠ 0) :
    IsProgression start.toInt (horizon start.toInt stop.toInt step.toInt) step.toInt
      ((terms start stop step).map Int64.toInt) := by
  intro k
  by_cases hk : Precedes step.toInt (start.toInt + k * step.toInt)
      (horizon start.toInt stop.toInt step.toInt)
  · obtain ⟨hmin, hmax⟩ := mem_bounds_of_precedes hk
    rw [if_pos hk, terms, List.map_map, List.getElem?_map,
      List.getElem?_range ((lt_rangeCount_iff hstep k).2 hk), Option.map_some,
      Function.comp_apply, Int64.toInt_ofInt_of_le hmin (by exact Int.lt_add_one_of_le hmax)]
  · rw [if_neg hk, List.getElem?_eq_none]
    rw [List.length_map, length_terms]
    exact not_lt.1 fun hlt => hk ((lt_rangeCount_iff hstep k).1 hlt)

/-! ## The built-in function -/

/-- The values that a range is called with give its start, its stop and its step: the start is zero
    and the step is one where they are left out, and truth values count as one and zero. -/
inductive RangeArguments : List (Value φ) → (start stop step : Int64) → Prop
  | stop {v : Value φ} {stop : Int64} : v.toInt? = some stop → RangeArguments [v] 0 stop 1
  | startStop {v w : Value φ} {start stop : Int64} : v.toInt? = some start →
      w.toInt? = some stop → RangeArguments [v, w] start stop 1
  | startStopStep {u v w : Value φ} {start stop step : Int64} : u.toInt? = some start →
      v.toInt? = some stop → w.toInt? = some step → RangeArguments [u, v, w] start stop step

variable {args : List (Value φ)}

theorem rangeArgument_eq {v : Value φ} {n : Int64} (hv : v.toInt? = some n) :
    rangeArgument v = .ok n.toInt := by
  rw [rangeArgument, hv]

/-- The arguments of a range say where it starts, where it stops and how far it steps. -/
theorem bounds_eq {start stop step : Int64} (hargs : RangeArguments args start stop step) :
    args.mapM rangeArgument >>= rangeBounds = .ok (start.toInt, stop.toInt, step.toInt) := by
  cases hargs with
  | stop hv =>
    rw [List.mapM_cons, rangeArgument_eq hv]
    rfl
  | startStop hv hw =>
    rw [List.mapM_cons, rangeArgument_eq hv, List.mapM_cons, rangeArgument_eq hw]
    rfl
  | startStopStep hu hv hw =>
    rw [List.mapM_cons, rangeArgument_eq hu, List.mapM_cons, rangeArgument_eq hv, List.mapM_cons,
      rangeArgument_eq hw]
    rfl

/-- A range has the items from its start on, unless it has too many. -/
theorem range_eq_ite {start stop step : Int64} (hargs : RangeArguments args start stop step)
    (hstep : step.toInt ≠ 0) : range args =
      if rangeCount start.toInt stop.toInt step.toInt > longestRange then .error .longRange
      else .ok (list (rangeItems start.toInt step.toInt
        (rangeCount start.toInt stop.toInt step.toInt))) := by
  calc range args
    _ = if step.toInt = 0 then .error .zeroStep
        else if rangeCount start.toInt stop.toInt step.toInt > longestRange then .error .longRange
        else pure (list (rangeItems start.toInt step.toInt
          (rangeCount start.toInt stop.toInt step.toInt))) := by
      rw [range, ← bind_assoc, bounds_eq hargs]
      rfl
    _ = _ := if_neg hstep

/-- A range has all terms in front of its horizon, in order, and is refused just when these are too
    many. The horizon is the stop unless that is farther from the start than the greatest
    integer. -/
theorem range_eq {start stop step : Int64} (hargs : RangeArguments args start stop step)
    (hstep : step ≠ 0) :
    (∃ items : List Int64,
      IsProgression start.toInt (horizon start.toInt stop.toInt step.toInt) step.toInt
        (items.map Int64.toInt) ∧
      range args =
        if items.length > longestRange then .error .longRange else .ok (list (items.map int))) ∧
    (horizon start.toInt stop.toInt step.toInt = stop.toInt ↔
      distance start.toInt stop.toInt step.toInt ≤ Int64.maxValue.toInt) := by
  have hne : step.toInt ≠ 0 := fun hzero => hstep (Int64.toInt_inj.1 hzero)
  refine ⟨⟨terms start stop step, isProgression_terms hne, ?_⟩, horizon_eq_stop_iff⟩
  rw [range_eq_ite hargs hne, rangeItems_eq hne, length_terms]

/-- A truth value is a start like any other. -/
theorem range_eq_of_true :
    RangeArguments [bool true, int 7, (int 3 : Value Unit)] 1 7 3 ∧ (3 : Int64) ≠ 0 ∧
    ∃ items : List Int64, IsProgression 1 7 3 (items.map Int64.toInt) ∧
      range [bool true, int 7, (int 3 : Value Unit)] =
        if items.length > longestRange then .error .longRange
        else .ok (list (items.map int)) := by
  have hargs : RangeArguments [bool true, int 7, (int 3 : Value Unit)] 1 7 3 :=
    .startStopStep rfl rfl rfl
  have hstep : (3 : Int64) ≠ 0 := by decide
  obtain ⟨hitems, hhorizon⟩ := range_eq hargs hstep
  have hstop : horizon (Int64.toInt 1) (Int64.toInt 7) (Int64.toInt 3) = 7 :=
    hhorizon.2 (by decide)
  rw [hstop] at hitems
  exact ⟨hargs, hstep, hitems⟩

/-- A stop that is too far from the start is not reached: zero is in front of it. -/
theorem range_minValue_maxValue :
    range [int Int64.minValue, int Int64.maxValue, (int 4611686018427387904 : Value Unit)] =
      .ok (list [int Int64.minValue, int (-4611686018427387904)]) ∧
    Precedes 4611686018427387904 (Int64.minValue.toInt + 2 * 4611686018427387904)
      Int64.maxValue.toInt := by
  refine ⟨rfl, by decide⟩

end Linewise.Value
