import Linewise.Text

/-!
# Tokens

A script is a sequence of tokens: words, numbers, texts in quotes, symbols and ends of lines.
Blanks and comments between them say nothing, so each token is kept with the place where it
stands and nothing else is.

A character that starts no token is a *stray* one, as is a quote that nothing closes: no rule of
the language accepts it, so reading stops there at the latest.
-/

namespace Linewise.Syntax

/-- A word with a meaning of its own. -/
inductive Keyword
  | ifKw
  | elifKw
  | elseKw
  | whileKw
  | forKw
  | inKw
  | defKw
  | returnKw
  | breakKw
  | continueKw
  | passKw
  | andKw
  | orKw
  | notKw
  | trueKw
  | falseKw
  | noneKw
  deriving DecidableEq

namespace Keyword

/-- The spelling of a keyword. -/
def spelling : Keyword → String
  | ifKw => "if"
  | elifKw => "elif"
  | elseKw => "else"
  | whileKw => "while"
  | forKw => "for"
  | inKw => "in"
  | defKw => "def"
  | returnKw => "return"
  | breakKw => "break"
  | continueKw => "continue"
  | passKw => "pass"
  | andKw => "and"
  | orKw => "or"
  | notKw => "not"
  | trueKw => "True"
  | falseKw => "False"
  | noneKw => "None"

/-- Every keyword. -/
def all : List Keyword :=
  [ifKw, elifKw, elseKw, whileKw, forKw, inKw, defKw, returnKw, breakKw, continueKw, passKw,
    andKw, orKw, notKw, trueKw, falseKw, noneKw]

/-- The keyword of a given spelling. -/
def ofSpelling? (word : String) : Option Keyword :=
  all.find? fun k => k.spelling = word

end Keyword

/-- A mark of punctuation or an operator. -/
inductive Symbol
  | openParen
  | closeParen
  | openBracket
  | closeBracket
  | openBrace
  | closeBrace
  | comma
  | semicolon
  | assign
  | eq
  | ne
  | le
  | ge
  | lt
  | gt
  | plus
  | minus
  | star
  | slash
  | doubleSlash
  | percent
  deriving DecidableEq

/-- A token. -/
inductive Token
  | newline
  | keyword (k : Keyword)
  | ident (name : String)
  /-- An integer, as its digits. -/
  | int (digits : String)
  /-- A decimal: its digits, and how many of them stand after the point. -/
  | decimal (digits places : Nat)
  /-- What stands between two quotes. -/
  | text (raw : List Char)
  | symbol (s : Symbol)
  | stray (c : Char)
  /-- The end of the script. -/
  | finish
  deriving DecidableEq

/-- A token, the line it starts on and its number, counted from zero. -/
structure Lexeme where
  token : Token
  line : Line
  index : Nat
  deriving DecidableEq

/-- A letter or an underscore, which a word can start with. -/
def isWordStart (c : Char) : Bool := c.isAlpha || c = '_'

/-- A letter, a digit or an underscore. -/
def isWordChar (c : Char) : Bool := c.isAlphanum || c = '_'

/-- The character ends a comment, and does not stand in a text. -/
def isLineEnd (c : Char) : Bool := c = '\n' || c = '\r'

/-- What stands in front of the closing quote, where a backslash keeps the next character from
    being read as anything else. There is none when the line ends first. -/
def quotedBody? (quote : Char) : List Char → Option (List Char)
  | [] => none
  | c :: rest =>
    if c = quote then some []
    else if c = '\\' then
      match rest with
      | [] => none
      | d :: rest => (quotedBody? quote rest).map fun body => c :: d :: body
    else if isLineEnd c then none
    else (quotedBody? quote rest).map fun body => c :: body

/-- The symbol that characters start with, and its length: the longest one. -/
def symbolAt? : List Char → Option (Symbol × Nat)
  | '=' :: '=' :: _ => some (.eq, 2)
  | '!' :: '=' :: _ => some (.ne, 2)
  | '<' :: '=' :: _ => some (.le, 2)
  | '>' :: '=' :: _ => some (.ge, 2)
  | '/' :: '/' :: _ => some (.doubleSlash, 2)
  | '=' :: _ => some (.assign, 1)
  | '<' :: _ => some (.lt, 1)
  | '>' :: _ => some (.gt, 1)
  | '/' :: _ => some (.slash, 1)
  | '*' :: _ => some (.star, 1)
  | '%' :: _ => some (.percent, 1)
  | '+' :: _ => some (.plus, 1)
  | '-' :: _ => some (.minus, 1)
  | '(' :: _ => some (.openParen, 1)
  | ')' :: _ => some (.closeParen, 1)
  | '[' :: _ => some (.openBracket, 1)
  | ']' :: _ => some (.closeBracket, 1)
  | '\x7b' :: _ => some (.openBrace, 1)
  | '\x7d' :: _ => some (.closeBrace, 1)
  | ',' :: _ => some (.comma, 1)
  | ';' :: _ => some (.semicolon, 1)
  | _ => none

/-- The number that characters start with: an integer, or a decimal when a point and more digits
    follow. -/
def numberAt (cs : List Char) : Token × Nat :=
  let whole := cs.takeWhile Char.isDigit
  let integer := (Token.int (String.ofList whole), whole.length)
  match cs.drop whole.length with
  | '.' :: rest =>
    let places := rest.takeWhile Char.isDigit
    if places.isEmpty then integer
    else (.decimal (Numeral.value (whole ++ places)) places.length,
      whole.length + 1 + places.length)
  | _ => integer

/-- The word that characters start with. -/
def wordAt (cs : List Char) : Token × Nat :=
  let letters := cs.takeWhile isWordChar
  let word := String.ofList letters
  (match Keyword.ofSpelling? word with
    | some k => .keyword k
    | none => .ident word,
    letters.length)

/-- What characters start with, and its length: a token, or nothing but blanks or a comment. -/
def pieceAt (c : Char) (rest : List Char) : Option Token × Nat :=
  if c = ' ' || c = '\t' || c = '\r' then (none, 1)
  else if c = '#' then (none, 1 + (rest.takeWhile fun d => !isLineEnd d).length)
  else if c = '\n' then (some .newline, 1)
  else if isWordStart c then
    let (token, length) := wordAt (c :: rest)
    (some token, length)
  else if c.isDigit then
    let (token, length) := numberAt (c :: rest)
    (some token, length)
  else if c = '"' || c = '\'' then
    match quotedBody? c rest with
    | some body => (some (.text body), body.length + 2)
    | none => (some (.stray c), 1)
  else
    match symbolAt? (c :: rest) with
    | some (s, length) => (some (.symbol s), length)
    | none => (some (.stray c), 1)

/-- A place in a script, with lines and columns counted from one. -/
structure Place where
  line : Nat
  column : Nat
  deriving DecidableEq

/-- The place after a character. Only a newline ends a line. -/
def Place.after (place : Place) (c : Char) : Place :=
  if c = '\n' then ⟨place.line + 1, 1⟩ else ⟨place.line, place.column + 1⟩

/-- The lexemes of the characters from a place on, with the columns they start in. The first
    `skip` characters belong to a piece that has been read already. -/
def scanFrom (skip : Nat) (place : Place) (index : Nat) : List Char → List (Lexeme × Nat)
  | [] => [(⟨.finish, Line.ofCount place.line, index⟩, place.column)]
  | c :: rest =>
    match skip with
    | skip + 1 => scanFrom skip (place.after c) index rest
    | 0 =>
      match pieceAt c rest with
      | (none, length) => scanFrom (length - 1) (place.after c) index rest
      | (some token, length) =>
        (⟨token, Line.ofCount place.line, index⟩, place.column) ::
          scanFrom (length - 1) (place.after c) (index + 1) rest

/-- The lexemes of a script, with the columns they start in. The last of them is its end. -/
def scan (source : String) : List (Lexeme × Nat) :=
  scanFrom 0 ⟨1, 1⟩ 0 source.toList

end Linewise.Syntax
