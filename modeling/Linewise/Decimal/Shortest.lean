/-!
# Shortest decimal texts of floating-point numbers

A finite double is `m · 2 ^ e` for a mantissa `m` and an exponent `e` that its bits give. The
reals that round to it form an interval around it, which holds its ends when `m` is even. Its
*shortest* decimal is a point of the coarsest decimal grid that has a point in the interval; of
the two neighbours of the number on that grid the nearer one is taken, and the upper one when
both are equally near.

All arithmetic is on natural numbers, so nothing is rounded on the way.
-/

namespace Linewise.Decimal

/-- The magnitude of a finite double: `mantissa · 2 ^ exponent`. The step down to the next
    smaller double is half as long as the step up exactly when `narrowBelow` holds. -/
structure Magnitude where
  mantissa : Nat
  exponent : Int
  narrowBelow : Bool
  deriving DecidableEq

/-- The magnitude that the low sixty-three bits of a finite double stand for. -/
def Magnitude.ofBits (bits : UInt64) : Magnitude :=
  let fraction := (bits &&& 0xFFFFFFFFFFFFF).toNat
  let biased := ((bits >>> 52) &&& 0x7FF).toNat
  if biased = 0 then ⟨fraction, -1074, false⟩
  else ⟨fraction + 0x10000000000000, biased - 1075, fraction = 0 && biased > 1⟩

/-- The magnitude itself when it is a whole number. -/
def Magnitude.whole? (x : Magnitude) : Option Nat :=
  let den := Nat.pow 2 (-x.exponent).toNat
  if x.mantissa % den = 0 then some (x.mantissa / den * Nat.pow 2 x.exponent.toNat) else none

/-- A positive decimal: `digits · 10 ^ exponent`. -/
structure Point where
  digits : Nat
  exponent : Int
  deriving DecidableEq

/-- The number and its rounding interval over one denominator: `low / scale`, `value / scale`
    and `high / scale`, where the ends count as inside when `closed` holds. -/
structure Window where
  low : Nat
  value : Nat
  high : Nat
  scale : Nat
  closed : Bool

/-- The rounding interval of a magnitude, in quarters of its unit in the last place. -/
def Magnitude.window (x : Magnitude) : Window :=
  let quarter := x.exponent - 2
  let up := Nat.pow 2 quarter.toNat
  let below := if x.narrowBelow then 1 else 2
  ⟨(4 * x.mantissa - below) * up, 4 * x.mantissa * up, (4 * x.mantissa + 2) * up,
    Nat.pow 2 (-quarter).toNat, x.mantissa % 2 = 0⟩

/-- The window holds `n · 10 ^ e`. -/
def Window.holds (w : Window) (n : Nat) (e : Int) : Bool :=
  let point := n * Nat.pow 10 e.toNat * w.scale
  let unit := Nat.pow 10 (-e).toNat
  if w.closed then w.low * unit ≤ point && point ≤ w.high * unit
  else w.low * unit < point && point < w.high * unit

/-- The nearer of the value's two neighbours on the grid of multiples of `10 ^ e`, among those
    that the window holds; the upper one on a tie. -/
def Window.onGrid? (w : Window) (e : Int) : Option Nat :=
  let num := w.value * Nat.pow 10 (-e).toNat
  let den := w.scale * Nat.pow 10 e.toNat
  let below := num / den
  let rest := num % den
  match w.holds below e && below ≠ 0, w.holds (below + 1) e with
  | true, true => some (if 2 * rest < den then below else below + 1)
  | true, false => some below
  | false, true => some (below + 1)
  | false, false => none

/-- The first grid from `10 ^ e` downwards that has a point in the window. -/
def Window.refine (w : Window) : Nat → Int → Point
  | 0, e => ⟨w.value * Nat.pow 10 (-e).toNat / (w.scale * Nat.pow 10 e.toNat), e⟩
  | fuel + 1, e =>
    match w.onGrid? e with
    | some n => ⟨n, e⟩
    | none => w.refine fuel (e - 1)

/-- An exponent of ten whose power is above the value, and above it by less than a factor of a
    hundred: the number of bits times `log 2` is bounded from both sides. -/
def Magnitude.topExponent (x : Magnitude) : Int :=
  ((x.mantissa.log2 : Int) + 1 + x.exponent) * 30103 / 100000 + 1

/-- The shortest decimal of a positive magnitude. -/
def Magnitude.shortest (x : Magnitude) : Point :=
  x.window.refine 25 x.topExponent

/-- The decimal written without an exponent, with a point only where a fraction follows. -/
def Point.positional (p : Point) : String :=
  let text := (Nat.toDigits 10 p.digits)
  if 0 ≤ p.exponent then String.ofList (text ++ List.replicate p.exponent.toNat '0')
  else
    let places := (-p.exponent).toNat
    let padded := List.replicate (places + 1 - text.length) '0' ++ text
    let whole := padded.length - places
    String.ofList (padded.take whole ++ '.' :: padded.drop whole)

example : (Magnitude.ofBits (0.1 : Float).toBits).shortest = ⟨1, -1⟩ := by decide +kernel

example : (Magnitude.ofBits 0x1).shortest = ⟨5, -324⟩ := by decide +kernel

example : (Magnitude.ofBits 0x44B52D02C7E14AF6).shortest = ⟨1, 23⟩ := by decide +kernel

end Linewise.Decimal
