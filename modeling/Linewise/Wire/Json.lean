import Linewise.Decimal.Reading

/-!
# Messages as JSON

A message is one JSON text. Texts are read into trees that keep what a reader of messages has to
know: a string that escapes half of a surrogate pair stands for no text, and a number keeps its
digits, for whether it was written as an integer matters.

Trees are written compactly, members in the order they have, with the shortest escapes.
-/

namespace Linewise.Wire

/-- A number as it is written: `digits · 10 ^ exponent`, with or without a minus sign. -/
structure JsonNumber where
  negative : Bool
  digits : Nat
  exponent : Int
  /-- It was written without a point and without an exponent. -/
  integral : Bool
  deriving DecidableEq

/-- The number is in the range of floating-point numbers. -/
def JsonNumber.isFinite (n : JsonNumber) : Bool :=
  !(Decimal.nearest n.digits n.exponent).isInf

/-- A JSON tree. A string or a name of a member is `none` when it stands for no text. -/
inductive Json where
  | null
  | bool (b : Bool)
  | number (n : JsonNumber)
  | string (text : Option String)
  | array (items : List Json)
  | object (members : List (Option String × Json))

namespace Json

/-! ## Writing -/

/-- The digit of a number below sixteen. -/
def hexDigit (n : Nat) : Char := Char.ofNat (if n < 10 then 48 + n else 87 + n)

/-- The characters that a character of a string is written as. -/
def escape (c : Char) : List Char :=
  if c = '"' then ['\\', '"']
  else if c = '\\' then ['\\', '\\']
  else if c = '\x08' then ['\\', 'b']
  else if c = '\x0c' then ['\\', 'f']
  else if c = '\n' then ['\\', 'n']
  else if c = '\r' then ['\\', 'r']
  else if c = '\t' then ['\\', 't']
  else if c.toNat < 32 then ['\\', 'u', '0', '0', hexDigit (c.toNat / 16), hexDigit (c.toNat % 16)]
  else [c]

/-- A text in quotes. -/
def writeText (s : String) : List Char :=
  '"' :: (s.toList.flatMap escape ++ ['"'])

/-- A string in quotes. What stands for no text is written as half of a surrogate pair. -/
def writeString : Option String → List Char
  | some s => writeText s
  | Option.none => "\"\\ud800\"".toList

/-- A number. An exponent follows unless the number was written as an integer. -/
def writeNumber (n : JsonNumber) : List Char :=
  (if n.negative then ['-'] else []) ++ Nat.toDigits 10 n.digits ++
    (if n.integral then []
      else 'e' :: ((if n.exponent < 0 then ['-'] else []) ++ Nat.toDigits 10 n.exponent.natAbs))

mutual

/-- The characters of a tree. -/
def write : Json → List Char
  | null => "null".toList
  | bool true => "true".toList
  | bool false => "false".toList
  | number n => writeNumber n
  | string text => writeString text
  | array items => '[' :: writeItems items
  | object members => '\x7b' :: writeMembers members

/-- The characters of the items of an array, through its closing bracket. -/
def writeItems : List Json → List Char
  | [] => [']']
  | [item] => item.write ++ [']']
  | item :: rest => item.write ++ ',' :: writeItems rest

/-- The characters of the members of an object, through its closing brace. -/
def writeMembers : List (Option String × Json) → List Char
  | [] => ['\x7d']
  | [(name, value)] => writeString name ++ ':' :: value.write ++ ['\x7d']
  | (name, value) :: rest => writeString name ++ ':' :: value.write ++ ',' :: writeMembers rest

end

/-- The text of a tree. -/
def render (json : Json) : String := String.ofList json.write

/-! ## Trees that are written -/

/-- A natural number, written as an integer. -/
def ofNat (n : Nat) : Json := number ⟨false, n, 0, true⟩

/-- A text. -/
def ofText (s : String) : Json := string (some s)

/-- An object with given members. -/
def ofMembers (members : List (String × Json)) : Json :=
  object (members.map fun (name, value) => (some name, value))

/-! ## What trees are like -/

mutual

/-- How many arrays and objects stand inside of each other. -/
def depth : Json → Nat
  | array items => depthOfItems items + 1
  | object members => depthOfMembers members + 1
  | _ => 0

/-- The depth of the deepest item. -/
def depthOfItems : List Json → Nat
  | [] => 0
  | item :: rest => max item.depth (depthOfItems rest)

/-- The depth of the deepest member. -/
def depthOfMembers : List (Option String × Json) → Nat
  | [] => 0
  | (_, value) :: rest => max value.depth (depthOfMembers rest)

end

mutual

/-- All strings stand for texts, and all numbers are in the range of floating-point numbers. -/
def isSound : Json → Bool
  | null | bool _ => true
  | number n => n.isFinite
  | string text => text.isSome
  | array items => soundItems items
  | object members => soundMembers members

/-- All items are sound. -/
def soundItems : List Json → Bool
  | [] => true
  | item :: rest => item.isSound && soundItems rest

/-- All members are sound, and so are their names. -/
def soundMembers : List (Option String × Json) → Bool
  | [] => true
  | (name, value) :: rest => name.isSome && value.isSound && soundMembers rest

end

/-- How deep a message may nest. -/
def deepest : Nat := 127

end Json

end Linewise.Wire
