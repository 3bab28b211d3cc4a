import Linewise.Wire.Json

/-!
# Reading JSON

The grammar is followed strictly: blanks are spaces, tabs and ends of lines, numbers have no
needless zeros, strings hold no control characters, and nothing follows the last item of a list
but its bracket. Each function reads from the front of a list of characters and gives what is
left.
-/

namespace Linewise.Wire.Json

/-- A blank of JSON. -/
def isSpace (c : Char) : Bool := c = ' ' || c = '\n' || c = '\t' || c = '\r'

/-- The characters after the blanks in front. -/
def skipSpaces (cs : List Char) : List Char := cs.dropWhile isSpace

/-! ## Strings -/

/-- The value of a hexadecimal digit. -/
def hexValue? (c : Char) : Option Nat :=
  if c.isDigit then some (c.toNat - 48)
  else if 'a' ≤ c && c ≤ 'f' then some (c.toNat - 87)
  else if 'A' ≤ c && c ≤ 'F' then some (c.toNat - 55)
  else none

/-- The number that four hexadecimal digits spell. -/
def hex4? (a b c d : Char) : Option Nat := do
  return 4096 * (← hexValue? a) + 256 * (← hexValue? b) + 16 * (← hexValue? c) + (← hexValue? d)

/-- A part of a string: a character, or a code unit that was written as its number. -/
inductive Piece
  | char (c : Char)
  | unit (n : Nat)
  deriving DecidableEq

/-- The character that a backslash and a character stand for. -/
def unescape? : Char → Option Char
  | '"' => some '"'
  | '\\' => some '\\'
  | '/' => some '/'
  | 'b' => some '\x08'
  | 'f' => some '\x0c'
  | 'n' => some '\n'
  | 'r' => some '\r'
  | 't' => some '\t'
  | _ => none

/-- The parts of a string through its closing quote. -/
def pieces? : List Char → Option (List Piece × List Char)
  | [] => none
  | '"' :: rest => some ([], rest)
  | '\\' :: 'u' :: a :: b :: c :: d :: rest => do
    let n ← hex4? a b c d
    let (pieces, rest) ← pieces? rest
    return (.unit n :: pieces, rest)
  | '\\' :: c :: rest => do
    let c ← unescape? c
    let (pieces, rest) ← pieces? rest
    return (.char c :: pieces, rest)
  | c :: rest =>
    if c.toNat < 32 || c = '\\' then none
    else do
      let (pieces, rest) ← pieces? rest
      return (.char c :: pieces, rest)

/-- The characters that the parts of a string stand for. Two code units make a character when they
    are the two halves of a surrogate pair; one half alone makes none. -/
def join? : List Piece → Option (List Char)
  | [] => some []
  | .char c :: rest => (join? rest).map (c :: ·)
  | .unit n :: rest =>
    if 0xD800 ≤ n && n < 0xDC00 then
      match rest with
      | .unit m :: rest =>
        if 0xDC00 ≤ m && m < 0xE000 then
          (join? rest).map (Char.ofNat (0x10000 + (n - 0xD800) * 1024 + (m - 0xDC00)) :: ·)
        else none
      | _ => none
    else if 0xDC00 ≤ n && n < 0xE000 then none
    else (join? rest).map (Char.ofNat n :: ·)

/-- A string after its opening quote. -/
def readString? (cs : List Char) : Option (Option String × List Char) := do
  let (pieces, rest) ← pieces? cs
  return ((join? pieces).map String.ofList, rest)

/-! ## Numbers -/

/-- One or more digits. -/
def digits? (cs : List Char) : Option (List Char × List Char) :=
  let digits := cs.takeWhile Char.isDigit
  if digits.isEmpty then none else some (digits, cs.dropWhile Char.isDigit)

/-- The digits in front of the point, which start with a zero only if it is the only one. -/
def whole? : List Char → Option (List Char × List Char)
  | '0' :: rest => some (['0'], rest)
  | cs => digits? cs

/-- The digits after the point, if there is one. -/
def places? : List Char → Option (List Char × List Char)
  | '.' :: rest => digits? rest
  | cs => some ([], cs)

/-- The exponent, if there is one. -/
def exponent? : List Char → Option (Option Int × List Char)
  | [] => some (none, [])
  | e :: rest =>
    if e = 'e' || e = 'E' then
      match rest with
      | '+' :: rest => (digits? rest).map fun (ds, rest) => (some (Numeral.value ds : Int), rest)
      | '-' :: rest => (digits? rest).map fun (ds, rest) => (some (-(Numeral.value ds : Int)), rest)
      | rest => (digits? rest).map fun (ds, rest) => (some (Numeral.value ds : Int), rest)
    else some (none, e :: rest)

/-- A number without its sign. -/
def readNumber? (negative : Bool) (cs : List Char) : Option (JsonNumber × List Char) := do
  let (whole, rest) ← whole? cs
  let (places, rest) ← places? rest
  let (exponent, rest) ← exponent? rest
  return (⟨negative, Numeral.value (whole ++ places), exponent.getD 0 - places.length,
    places.isEmpty && exponent.isNone⟩, rest)

/-! ## Trees -/

mutual

/-- A tree, with at most `fuel` readings inside of each other. -/
def readTree? : (fuel : Nat) → List Char → Option (Json × List Char)
  | 0, _ => none
  | fuel + 1, cs =>
    match skipSpaces cs with
    | 'n' :: 'u' :: 'l' :: 'l' :: rest => some (null, rest)
    | 't' :: 'r' :: 'u' :: 'e' :: rest => some (bool true, rest)
    | 'f' :: 'a' :: 'l' :: 's' :: 'e' :: rest => some (bool false, rest)
    | '"' :: rest => (readString? rest).map fun (text, rest) => (string text, rest)
    | '-' :: rest => (readNumber? true rest).map fun (n, rest) => (number n, rest)
    | '[' :: rest =>
      match skipSpaces rest with
      | ']' :: rest => some (array [], rest)
      | rest => (readItems? fuel rest).map fun (items, rest) => (array items, rest)
    | '\x7b' :: rest =>
      match skipSpaces rest with
      | '\x7d' :: rest => some (object [], rest)
      | rest => (readMembers? fuel rest).map fun (members, rest) => (object members, rest)
    | cs => (readNumber? false cs).map fun (n, rest) => (number n, rest)

/-- The items of an array that has some, through its closing bracket. -/
def readItems? : (fuel : Nat) → List Char → Option (List Json × List Char)
  | 0, _ => none
  | fuel + 1, cs => do
    let (item, rest) ← readTree? fuel cs
    match skipSpaces rest with
    | ',' :: rest => (readItems? fuel rest).map fun (items, rest) => (item :: items, rest)
    | ']' :: rest => some ([item], rest)
    | _ => none

/-- The members of an object that has some, through its closing brace. -/
def readMembers? : (fuel : Nat) → List Char → Option (List (Option String × Json) × List Char)
  | 0, _ => none
  | fuel + 1, cs =>
    match skipSpaces cs with
    | '"' :: rest => do
      let (name, rest) ← readString? rest
      match skipSpaces rest with
      | ':' :: rest =>
        let (value, rest) ← readTree? fuel rest
        match skipSpaces rest with
        | ',' :: rest =>
          (readMembers? fuel rest).map fun (members, rest) => ((name, value) :: members, rest)
        | '\x7d' :: rest => some ([(name, value)], rest)
        | _ => none
      | _ => none
    | _ => none

end

/-- The tree that a text spells, with nothing but blanks around it. Every second reading inside of
    another one takes a character, so twice their number is fuel enough. -/
def read? (text : String) : Option Json :=
  let cs := text.toList
  match readTree? (2 * cs.length + 2) cs with
  | some (json, rest) => if (skipSpaces rest).isEmpty then some json else none
  | none => none

end Linewise.Wire.Json
