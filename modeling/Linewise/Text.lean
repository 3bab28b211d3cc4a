/-!
# Lines, blanks and numerals

What the parts of the debugger that read texts have in common.

Scripts are stepped line by line, and every part of the debugger names lines by number. Numbers
start at one and fill thirty-two bits; zero stands where there is no line. A text of `2 ^ 32` lines
or more has no numbers left, and they start anew from zero.

The characters that separate words and that trimming removes are those with the Unicode property
`White_Space`: twenty-five of them, of which the five controls from tab to carriage return and
the space are the ones below `U+0080`.

Whole numbers are written in decimal digits, by words of a command line, by configuration values
and by arguments of conversions alike: an optional sign and then one or more ASCII digits, with
nothing else around them, whose value has to lie in a given range.
-/

namespace Linewise

/-- The number of a line of a script, counted from one. -/
abbrev Line := UInt32

/-- The number of the line that has `n - 1` lines before it, which is `n` as far as it fits. -/
def Line.ofCount (n : Nat) : Line := UInt32.ofNat n

/-! ## Blanks -/

namespace Text

/-- The character has the Unicode property `White_Space`. -/
def isBlank (c : Char) : Bool :=
  let n := c.toNat
  (0x9 ≤ n && n ≤ 0xD) || n == 0x20 || n == 0x85 || n == 0xA0 || n == 0x1680 ||
    (0x2000 ≤ n && n ≤ 0x200A) || n == 0x2028 || n == 0x2029 || n == 0x202F || n == 0x205F ||
    n == 0x3000

/-- The text without the blanks at its two ends. -/
def trim (s : String) : String :=
  String.ofList ((s.toList.dropWhile isBlank).reverse.dropWhile isBlank).reverse

/-- The words gathered so far, the unfinished first one apart. -/
def closeWord (gathered : List Char × List String) : List String :=
  if gathered.1.isEmpty then gathered.2 else String.ofList gathered.1 :: gathered.2

/-- The maximal runs of characters that are not blank, in order. -/
def words (s : String) : List String :=
  closeWord (s.toList.foldr
    (fun c gathered =>
      if isBlank c then ([], closeWord gathered) else (c :: gathered.1, gathered.2))
    ([], []))

/-- Every blank that core's ASCII class knows is a blank here. -/
theorem isBlank_of_isWhitespace {c : Char} (h : c.isWhitespace = true) : isBlank c = true := by
  simp only [Char.isWhitespace, Bool.or_eq_true, decide_eq_true_eq] at h
  rcases h with ((h | h) | h) | h <;> subst h <;> decide

end Text

/-! ## Numerals -/

namespace Numeral

/-- The number that decimal digits spell. -/
def value (digits : List Char) : Nat :=
  digits.foldl (fun n c => 10 * n + (c.toNat - '0'.toNat)) 0

/-- The value of a run of decimal digits, `none` when it is empty or holds anything else. -/
def digits? (cs : List Char) : Option Nat :=
  if cs.isEmpty || !cs.all Char.isDigit then none else some (value cs)

/-- A number below `bound`, with an optional `+` in front. -/
def unsigned? (bound : Nat) (s : String) : Option Nat :=
  let digits := match s.toList with
    | '+' :: rest => digits? rest
    | cs => digits? cs
  digits.filter (· < bound)

/-- A number that fits in thirty-two bits. -/
def word32? (s : String) : Option UInt32 :=
  (unsigned? UInt32.size s).map UInt32.ofNat

/-- A number that fits in sixty-four bits, as a natural number. -/
def word64? (s : String) : Option Nat :=
  unsigned? UInt64.size s

/-- A signed number that fits in sixty-four bits. -/
def int64? (s : String) : Option Int64 :=
  let value : Option Int := match s.toList with
    | '+' :: rest => (digits? rest).map Int.ofNat
    | '-' :: rest => (digits? rest).map fun n => -(n : Int)
    | cs => (digits? cs).map Int.ofNat
  (value.filter fun n => Int64.minValue.toInt ≤ n && n ≤ Int64.maxValue.toInt).map Int64.ofInt

end Numeral

end Linewise
