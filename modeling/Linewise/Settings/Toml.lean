import Linewise.Settings.Entries

/-!
# TOML

Documents of settings: lines that hold the header of a table, or a key and its value, and comments
behind a hash sign. Values are strings, whole numbers, fractions and truth values, each on the line
of its key; lists, times and tables within a line are not read.

A table can be begun by a header only once, and by dotted keys only if no header has begun it. No
key is given a value twice.
-/

namespace Linewise.Toml

/-! ## Lines -/

/-- The lines of a text, without their ends. -/
def lines : List Char → List (List Char)
  | [] => [[]]
  | '\r' :: '\n' :: rest => [] :: lines rest
  | '\n' :: rest => [] :: lines rest
  | c :: rest =>
    match lines rest with
    | first :: others => (c :: first) :: others
    | [] => [[c]]

/-- A character that may stand in a line as it is. -/
def isPlain (c : Char) : Bool := c = '\t' || (32 ≤ c.toNat && c.toNat ≠ 127)

/-- The characters after the blanks in front. -/
def skipBlanks (cs : List Char) : List Char := cs.dropWhile fun c => c = ' ' || c = '\t'

/-- Nothing follows but blanks and a comment. -/
def isEnd (cs : List Char) : Bool :=
  match skipBlanks cs with
  | [] => true
  | c :: rest => c = '#' && rest.all isPlain

/-! ## Strings -/

/-- The number that digits of a base spell, `none` when one of them is no digit of it. -/
def number? (base : Nat) (digits : List Char) : Option Nat :=
  digits.foldlM
    (fun n c =>
      let digit :=
        if c.isDigit then c.toNat - 48
        else if 'a' ≤ c && c ≤ 'f' then c.toNat - 87
        else if 'A' ≤ c && c ≤ 'F' then c.toNat - 55
        else base
      if digit < base then some (base * n + digit) else none)
    0

/-- The character with a hexadecimal number. -/
def charOfHex? (digits : List Char) : Option Char := do
  let n ← number? 16 digits
  if n.isValidChar then some (Char.ofNat n) else none

/-- The character that a backslash and a character stand for. -/
def unescape? : Char → Option Char
  | 'b' => some '\x08'
  | 't' => some '\t'
  | 'n' => some '\n'
  | 'f' => some '\x0c'
  | 'r' => some '\r'
  | '"' => some '"'
  | '\\' => some '\\'
  | _ => none

/-- A string with escapes, through its closing quote. -/
def basic? : List Char → Option (List Char × List Char)
  | [] => none
  | '"' :: rest => some ([], rest)
  | '\\' :: 'u' :: a :: b :: c :: d :: rest => do
    let first ← charOfHex? [a, b, c, d]
    let (others, rest) ← basic? rest
    return (first :: others, rest)
  | '\\' :: 'U' :: a :: b :: c :: d :: e :: f :: g :: h :: rest => do
    let first ← charOfHex? [a, b, c, d, e, f, g, h]
    let (others, rest) ← basic? rest
    return (first :: others, rest)
  | '\\' :: c :: rest => do
    let first ← unescape? c
    let (others, rest) ← basic? rest
    return (first :: others, rest)
  | c :: rest =>
    if isPlain c && c ≠ '\\' then do
      let (others, rest) ← basic? rest
      return (c :: others, rest)
    else none

/-- A string without escapes, through its closing quote. -/
def literal? (cs : List Char) : Option (List Char × List Char) :=
  let body := cs.takeWhile fun c => c ≠ '\''
  match cs.drop body.length with
  | [] => none
  | _ :: rest => if body.all isPlain then some (body, rest) else none

/-! ## Numbers -/

/-- The digits of a run in which single underscores may stand between digits. -/
def digitRun? (isDigit : Char → Bool) (cs : List Char) : Option (List Char) :=
  let groups := cs.splitOn '_'
  if groups.all fun group => !group.isEmpty && group.all isDigit then some groups.flatten else none

/-- The digits of a whole number, without needless zeros in front. -/
def decimalRun? (cs : List Char) : Option (List Char) := do
  match ← digitRun? Char.isDigit cs with
  | '0' :: _ :: _ => none
  | digits => some digits

/-- A sign and what follows it. -/
def signed (cs : List Char) : Bool × List Char :=
  match cs with
  | '-' :: rest => (true, rest)
  | '+' :: rest => (false, rest)
  | _ => (false, cs)

/-- The whole number that a word spells. -/
def whole? (word : List Char) : Option Int :=
  match word with
  | '0' :: 'x' :: rest =>
    (digitRun? Char.isAlphanum rest).bind fun ds => (number? 16 ds).map Int.ofNat
  | '0' :: 'o' :: rest => (digitRun? Char.isDigit rest).bind fun ds => (number? 8 ds).map Int.ofNat
  | '0' :: 'b' :: rest => (digitRun? Char.isDigit rest).bind fun ds => (number? 2 ds).map Int.ofNat
  | _ =>
    let (negative, digits) := signed word
    (decimalRun? digits).map fun ds =>
      if negative then -(Numeral.value ds : Int) else (Numeral.value ds : Int)

/-- A character of a run of digits. -/
def isRunChar (c : Char) : Bool := c.isDigit || c = '_'

/-- An exponent, or nothing. -/
def isExponent (cs : List Char) : Bool :=
  match cs with
  | [] => true
  | e :: rest => (e = 'e' || e = 'E') && (digitRun? Char.isDigit (signed rest).2).isSome

/-- The shape of an unsigned fraction: it has digits after a point, or an exponent, or both. -/
def isFraction (cs : List Char) : Bool :=
  let rest := cs.dropWhile isRunChar
  (decimalRun? (cs.takeWhile isRunChar)).isSome &&
    match rest with
    | [] => false
    | '.' :: rest =>
      (digitRun? Char.isDigit (rest.takeWhile isRunChar)).isSome &&
        isExponent (rest.dropWhile isRunChar)
    | _ => isExponent rest

/-- The fraction that a word spells. Only the word for it means infinity. -/
def fraction? (word : List Char) : Option Float :=
  let (_, unsigned) := signed word
  let special := unsigned = ['i', 'n', 'f'] || unsigned = ['n', 'a', 'n']
  if special || isFraction unsigned then
    (Decimal.read? (String.ofList (word.filter (· ≠ '_')))).filter fun x => special || x.isFinite
  else none

/-- A number that fits in sixty-four bits. -/
def int64? (n : Int) : Option Int64 :=
  if Int64.minValue.toInt ≤ n && n ≤ Int64.maxValue.toInt then some (Int64.ofInt n) else none

/-! ## Keys and values -/

/-- A character of a word: a key without quotes, or a value that is not a string. -/
def isWordChar (c : Char) : Bool := c.isAlphanum || c = '_' || c = '-'

/-- One name of a key. -/
def name? (cs : List Char) : Option (String × List Char) :=
  match cs with
  | '"' :: rest => (basic? rest).map fun (name, rest) => (String.ofList name, rest)
  | '\'' :: rest => (literal? rest).map fun (name, rest) => (String.ofList name, rest)
  | _ =>
    let word := cs.takeWhile isWordChar
    if word.isEmpty then none else some (String.ofList word, cs.drop word.length)

/-- A key: names with dots between them, at most `fuel` of them. -/
def key? : (fuel : Nat) → List Char → Option (List String × List Char)
  | 0, _ => none
  | fuel + 1, cs => do
    let (name, rest) ← name? (skipBlanks cs)
    match skipBlanks rest with
    | '.' :: rest => do
      let (names, rest) ← key? fuel rest
      return (name :: names, rest)
    | rest => return ([name], rest)

/-- A value. -/
def value? (cs : List Char) : Option (Scalar × List Char) :=
  match cs with
  | '"' :: rest => (basic? rest).map fun (text, rest) => (.text (String.ofList text), rest)
  | '\'' :: rest => (literal? rest).map fun (text, rest) => (.text (String.ofList text), rest)
  | _ =>
    let word := cs.takeWhile fun c => isWordChar c || c = '+' || c = '.'
    let value :=
      if word = ['t', 'r', 'u', 'e'] then some (.bool true)
      else if word = ['f', 'a', 'l', 's', 'e'] then some (.bool false)
      else
        match whole? word with
        | some n => (int64? n).map .int
        | none => (fraction? word).map .float
    value.map fun value => (value, cs.drop word.length)

/-! ## Documents -/

/-- How a table has come about. -/
inductive Origin
  /-- It lies on the way to a table with a header. -/
  | implied
  | headed
  /-- It lies on the way of a dotted key. -/
  | dotted
  deriving DecidableEq

/-- The tables and the values of a document, and the table that the last header has begun. -/
structure Document where
  tables : List (List String × Origin)
  values : List (List String × Scalar)
  current : List String

namespace Document

/-- A document without lines. -/
def empty : Document := ⟨[], [], []⟩

/-- How the table at a path has come about. -/
def origin? (document : Document) (path : List String) : Option Origin :=
  (document.tables.find? fun table => table.1 = path).map Prod.snd

/-- A value stands at a path. -/
def hasValue (document : Document) (path : List String) : Bool :=
  document.values.any fun value => value.1 = path

/-- The document with a table at a path, of whatever origin it has been. -/
def mark (document : Document) (path : List String) (origin : Origin) : Document :=
  { document with
    tables := (path, origin) :: document.tables.filter fun table => table.1 ≠ path }

/-- The document with tables at all stations of a way. Dotted keys do not lead through tables with
    a header. -/
def descend (origin : Origin) : List String → List String → Document → Option Document
  | _, [], document => some document
  | path, name :: names, document =>
    let path := path ++ [name]
    if document.hasValue path then none
    else
      match document.origin? path with
      | none => descend origin path names (document.mark path origin)
      | some found =>
        if origin = .dotted && found = .headed then none
        else descend origin path names document

/-- The document after a header. -/
def header (document : Document) (path : List String) : Option Document := do
  let document ← document.descend .implied [] path.dropLast
  if document.hasValue path then none
  else
    match document.origin? path with
    | none | some .implied => some { document.mark path .headed with current := path }
    | some .headed | some .dotted => none

/-- The document after a key and its value. -/
def assign (document : Document) (key : List String) (value : Scalar) : Option Document := do
  let table := document.current ++ key.dropLast
  let path := document.current ++ key
  let document ← document.descend .dotted document.current key.dropLast
  if key.length ≠ 1 && document.origin? table ≠ some .dotted then none
  else if document.hasValue path || (document.origin? path).isSome then none
  else some { document with values := document.values ++ [(path, value)] }

/-- The document after a line. -/
def addLine (document : Document) (line : List Char) : Option Document :=
  match skipBlanks line with
  | '[' :: rest => do
    match ← key? rest.length rest with
    | (path, ']' :: rest) => if isEnd rest then document.header path else none
    | _ => none
  | cs =>
    if isEnd cs then some document
    else do
      match ← key? cs.length cs with
      | (key, '=' :: rest) => do
        let (value, rest) ← value? (skipBlanks rest)
        if isEnd rest then document.assign key value else none
      | _ => none

/-- The document that a text spells. A mark of the byte order in front of it does not count. -/
def read? (text : String) : Option Document :=
  let cs := match text.toList with
    | '\uFEFF' :: rest => rest
    | cs => cs
  (lines cs).foldlM addLine empty

/-- What a document says about settings. A dot in the outermost name separates names as well. -/
def entries (document : Document) : List (Path × Scalar) :=
  document.values.map fun (path, value) =>
    match path with
    | [] => ([], value)
    | name :: names => (Path.ofText name ++ names.map String.toLower, value)

end Document

end Linewise.Toml
