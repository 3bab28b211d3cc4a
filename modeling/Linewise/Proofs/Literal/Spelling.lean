import Linewise.Proofs.Literal.Basic
import Linewise.Proofs.Syntax.Nesting
import Linewise.Syntax.Grammar

/-!
# How literals are spelt

The text of a literal is read by the scan, which makes tokens of it (`Value.IsLiteral.tokens_repr`),
and by the check of the nesting, which finds it as deep as its lists are
(`Value.IsLiteral.excessFrom_repr`). Inside of a list, a literal is followed by a comma or by the
closing bracket, and neither of the two readers goes on past the end of the literal there
(`Follows`).
-/

namespace Linewise

open Syntax (Keyword Token Quoted IsQuote isLineEnd isWordChar isWordStart pieceAt)

namespace Value

variable {φ : Type} [FunctionHandle φ]

/-! ## Tokens -/

/-- What stands between the quotes of a text. -/
def escaped (s : String) : List Char := s.toList.flatMap (quoteChar (quoteFor s))

/-- The keyword of a truth value. -/
def truthKw (b : Bool) : Keyword := if b then .trueKw else .falseKw

mutual

/-- The tokens of a literal. -/
def tokens : Value φ → List Token
  | none => [.keyword .noneKw]
  | bool b => [.keyword (truthKw b)]
  | int n => if n.toInt < 0 then [.symbol .minus, .int (digits n)] else [.int (digits n)]
  | str s => [.text (escaped s)]
  | list items => .symbol .openBracket :: (listTokens items ++ [.symbol .closeBracket])
  | float _ | function _ | builtin _ => []

/-- The tokens of the items of a list. -/
def listTokens : List (Value φ) → List Token
  | [] => []
  | item :: rest => item.tokens ++ moreTokens rest

/-- The tokens of more items of a list. -/
def moreTokens : List (Value φ) → List Token
  | [] => []
  | item :: rest => .symbol .comma :: (item.tokens ++ moreTokens rest)

end

/-! ## Characters -/

/-- An integer is written as a sign, if it is negative, and its digits. -/
theorem toList_toString_toInt (n : Int64) : (toString n.toInt).toList =
    if n.toInt < 0 then '-' :: (digits n).toList else (digits n).toList := by
  rw [digits]
  cases n.toInt with
  | ofNat m => simp [Int.repr]
  | negSucc m => simp [Int.repr]

theorem toList_quoted (s : String) :
    (quoted s).toList = quoteFor s :: (escaped s ++ [quoteFor s]) := by
  rw [quoted, String.toList_ofList, escaped]

theorem toList_itemsText (written : String) (rest : List (Value φ)) :
    (itemsText written rest).toList =
      written.toList ++ rest.flatMap fun item => ',' :: ' ' :: item.repr.toList := by
  induction rest generalizing written with
  | nil => simp [itemsText]
  | cons item rest ih => simp [itemsText, ih, repr]

theorem repr_none : (none : Value φ).repr = Keyword.noneKw.spelling := rfl

theorem repr_bool (b : Bool) : (bool b : Value φ).repr = (truthKw b).spelling := by
  cases b <;> rfl

theorem repr_int (n : Int64) : (int n : Value φ).repr = toString n.toInt := rfl

theorem repr_str (s : String) : (str s : Value φ).repr = quoted s := rfl

theorem repr_list (items : List (Value φ)) : (list items).repr = listText items := rfl

theorem toList_repr_nil : (list [] : Value φ).repr.toList = ['[', ']'] := by
  rw [repr_list, listText]
  rfl

/-- A list is written as its items with commas in between, in brackets. -/
theorem toList_repr_cons (item : Value φ) (rest : List (Value φ)) :
    (list (item :: rest)).repr.toList = '[' :: (item.repr.toList ++
      ((rest.flatMap fun item => ',' :: ' ' :: item.repr.toList) ++ [']'])) := by
  rw [repr_list, listText, String.toList_append, toList_itemsText, String.toList_append]
  simp [repr]

/-! ## Texts in quotes -/

variable {quote : Char}

/-- A text is put in quotes of one of the two kinds. -/
theorem isQuote_quoteFor (s : String) : IsQuote (quoteFor s) := by
  rw [quoteFor]
  split
  · exact .inl rfl
  · exact .inr rfl

/-- A character in quotes is escaped by another one that a backslash makes into it, or is neither
    the quote, nor a backslash, nor the end of a line. -/
theorem quoteChar_cases (hquote : IsQuote quote) (c : Char) :
    (∃ d, quoteChar quote c = ['\\', d] ∧ d ≠ '\n' ∧ Syntax.Grammar.unescapeChar d = c) ∨
      quoteChar quote c = [c] ∧ c ≠ quote ∧ c ≠ '\\' ∧ isLineEnd c = false := by
  rw [quoteChar]
  by_cases hn : c = '\n'
  · exact .inl ⟨'n', if_pos hn, by decide, hn.symm⟩
  by_cases ht : c = '\t'
  · exact .inl ⟨'t', by rw [if_neg hn, if_pos ht], by decide, ht.symm⟩
  by_cases hr : c = '\r'
  · exact .inl ⟨'r', by rw [if_neg hn, if_neg ht, if_pos hr], by decide, hr.symm⟩
  rw [if_neg hn, if_neg ht, if_neg hr]
  by_cases hescaped : c = '\\' ∨ c = quote
  · refine .inl ⟨c, if_pos (by simpa using hescaped), hn, ?_⟩
    rcases hescaped with rfl | rfl
    · rfl
    · rcases hquote with rfl | rfl <;> rfl
  · obtain ⟨hbackslash, hne⟩ := not_or.1 hescaped
    exact .inr ⟨if_neg (by simpa using hescaped), hne, hbackslash, by simp [isLineEnd, hn, hr]⟩

/-- What is written of a text between its quotes may stand there, ends no line, and is what the
    text is read back from. -/
theorem quoted_flatMap (hquote : IsQuote quote) (cs : List Char) :
    Quoted quote (cs.flatMap (quoteChar quote)) ∧ '\n' ∉ cs.flatMap (quoteChar quote) ∧
      Syntax.Grammar.unescape (cs.flatMap (quoteChar quote)) = cs := by
  induction cs with
  | nil => exact ⟨.nil, List.not_mem_nil, rfl⟩
  | cons c cs ih =>
    obtain ⟨hquoted, hline, hunescape⟩ := ih
    rw [List.flatMap_cons]
    rcases quoteChar_cases hquote c with ⟨d, heq, hd, hc⟩ | ⟨heq, hne, hbackslash, hend⟩
    · rw [heq]
      refine ⟨.escape hquoted, ?_, ?_⟩
      · simp [hd.symm, hline]
      · simp [Syntax.Grammar.unescape, hc, hunescape]
    · rw [heq]
      refine ⟨.plain hne hbackslash hend hquoted, ?_, ?_⟩
      · have hc : '\n' ≠ c := by
          rintro rfl
          cases hend
        simp [hc, hline]
      · rw [List.singleton_append, Syntax.Grammar.unescape.eq_def]
        simp [hbackslash, hunescape]

theorem quoted_escaped (s : String) : Quoted (quoteFor s) (escaped s) :=
  (quoted_flatMap (isQuote_quoteFor s) s.toList).1

theorem newline_notMem_escaped (s : String) : '\n' ∉ escaped s :=
  (quoted_flatMap (isQuote_quoteFor s) s.toList).2.1

/-- An escaped text is read back as it was. -/
theorem ofList_unescape_escaped (s : String) :
    String.ofList (Syntax.Grammar.unescape (escaped s)) = s := by
  rw [escaped, (quoted_flatMap (isQuote_quoteFor s) s.toList).2.2, String.ofList_toList]

/-! ## The end of a literal -/

/-- What may follow a literal: nothing, another item of the list around it or its bracket. -/
def Follows (rest : List Char) : Prop := ∀ c ∈ rest.head?, c = ',' ∨ c = ']'

theorem follows_nil : Follows [] := nofun

theorem follows_comma (rest : List Char) : Follows (',' :: rest) := by
  rintro c ⟨⟩
  exact .inl rfl

theorem follows_bracket (rest : List Char) : Follows (']' :: rest) := by
  rintro c ⟨⟩
  exact .inr rfl

/-- The other items of a list may follow one of them, and so may its bracket. -/
theorem follows_more (items : List (Value φ)) (rest : List Char) :
    Follows ((items.flatMap fun item => ',' :: ' ' :: item.repr.toList) ++ ']' :: rest) := by
  cases items with
  | nil => exact follows_bracket rest
  | cons => exact follows_comma _

variable {rest cs : List Char} {c : Char}

/-- A run of characters of one sort ends where the literal does. -/
theorem Follows.takeWhile_append {p : Char → Bool} (h : Follows rest) (hcomma : p ',' = false)
    (hbracket : p ']' = false) (hcs : ∀ c ∈ cs, p c = true) : (cs ++ rest).takeWhile p = cs := by
  have hrest : rest.takeWhile p = [] := by
    cases rest with
    | nil => rfl
    | cons c rest =>
      refine List.takeWhile_cons_of_neg (Bool.not_eq_true _ ▸ ?_)
      rcases h c rfl with rfl | rfl
      · exact hcomma
      · exact hbracket
  rw [List.takeWhile_append_of_pos hcs, hrest, List.append_nil]

/-! ## The scan -/

/-- The scan goes on behind a token. -/
theorem tokens_of_pieceAt {token : Token}
    (h : pieceAt c (cs ++ rest) = (some token, cs.length + 1)) :
    Syntax.tokens (c :: (cs ++ rest)) = token :: Syntax.tokens rest := by
  rw [Syntax.tokens_cons, h]
  simp

theorem ofSpelling?_spelling (k : Keyword) : Keyword.ofSpelling? k.spelling = some k := by
  cases k <;> decide

/-- A keyword is a word of its own. -/
theorem exists_spelling (k : Keyword) : ∃ c cs, k.spelling.toList = c :: cs ∧
    isWordStart c = true ∧ ∀ d ∈ cs, isWordChar d = true := by
  have hall : ∀ {c : Char} {cs : List Char}, k.spelling.toList = c :: cs → isWordStart c = true →
      cs.all isWordChar = true → ∃ c cs, k.spelling.toList = c :: cs ∧
        isWordStart c = true ∧ ∀ d ∈ cs, isWordChar d = true :=
    fun h hstart hchars => ⟨_, _, h, hstart, List.all_eq_true.1 hchars⟩
  cases k <;> exact hall rfl rfl rfl

theorem newline_notMem_spelling (k : Keyword) : '\n' ∉ k.spelling.toList := by
  cases k <;> decide

/-- A keyword is scanned as such where no word character follows it. -/
theorem tokens_keyword (k : Keyword) (hrest : Follows rest) :
    Syntax.tokens (k.spelling.toList ++ rest) = .keyword k :: Syntax.tokens rest := by
  obtain ⟨c, cs, hspelling, hc, hcs⟩ := exists_spelling k
  -- A keyword begins with a letter, so it is no blank, comment or end of a line.
  have hne : ∀ d, isWordStart d = false → c ≠ d := by
    rintro d hd rfl
    exact Bool.noConfusion (hc.symm.trans hd)
  have hletters : (c :: (cs ++ rest)).takeWhile isWordChar = c :: cs := by
    rw [Syntax.Nesting.takeWhile_isWordChar hc, hrest.takeWhile_append rfl rfl hcs]
  have hword : Syntax.wordAt (c :: (cs ++ rest)) = (.keyword k, cs.length + 1) := by
    rw [Syntax.wordAt]
    simp only [hletters, ← hspelling, String.ofList_toList, ofSpelling?_spelling]
    rw [hspelling, List.length_cons]
  rw [hspelling]
  refine tokens_of_pieceAt ?_
  simp [pieceAt, hc, hne ' ' rfl, hne '\t' rfl, hne '\r' rfl, hne '#' rfl, hne '\n' rfl, hword]

/-- Digits are scanned as a whole number where no digit and no point follows them. -/
theorem pieceAt_digits (hc : c.isDigit = true) (hcs : ∀ d ∈ cs, d.isDigit = true)
    (hrest : Follows rest) :
    pieceAt c (cs ++ rest) = (some (.int (String.ofList (c :: cs))), cs.length + 1) := by
  have hne : ∀ d : Char, d.isDigit = false → c ≠ d := by
    rintro d hd rfl
    exact Bool.noConfusion (hc.symm.trans hd)
  have hdigits : (c :: (cs ++ rest)).takeWhile Char.isDigit = c :: cs := by
    rw [List.takeWhile_cons_of_pos hc, hrest.takeWhile_append rfl rfl hcs]
  -- The number would go on with a point only, and what follows a literal is none.
  have hnumber : Syntax.numberAt (c :: (cs ++ rest)) =
      (.int (String.ofList (c :: cs)), cs.length + 1) := by
    have hdrop : ((c :: cs) ++ rest).drop (c :: cs).length = rest := List.drop_left
    rw [List.cons_append] at hdrop
    rw [Syntax.numberAt]
    simp only [hdigits, hdrop]
    split
    next => rcases hrest '.' rfl with hdot | hdot <;> cases hdot
    next => rfl
  simp [pieceAt, Syntax.Nesting.isWordStart_of_isDigit hc, hc, hne ' ' rfl, hne '\t' rfl,
    hne '\r' rfl, hne '#' rfl, hne '\n' rfl, hnumber]

/-- A text as it is written is scanned as one token. -/
theorem pieceAt_quoted (s : String) (rest : List Char) :
    pieceAt (quoteFor s) (escaped s ++ quoteFor s :: rest) =
      (some (.text (escaped s)), (escaped s).length + 2) := by
  have hscan := (quoted_escaped s).quotedBody?_append (isQuote_quoteFor s) rest
  rcases isQuote_quoteFor s with heq | heq
  all_goals
    rw [heq] at hscan ⊢
    simp [pieceAt, hscan, isWordStart]

/-- The digits of a number are one token where no digit and no point follows them. -/
theorem tokens_digits (n : Int64) (hrest : Follows rest) :
    Syntax.tokens ((digits n).toList ++ rest) = .int (digits n) :: Syntax.tokens rest := by
  have hdigits := Wire.Json.isDigit_toDigits n.toInt.natAbs
  rw [digits, String.toList_ofList]
  cases hds : Nat.toDigits 10 n.toInt.natAbs with
  | nil => exact absurd hds Nat.toDigits_ne_nil
  | cons d ds =>
    rw [hds] at hdigits
    obtain ⟨hd, hds⟩ := List.forall_mem_cons.1 hdigits
    exact tokens_of_pieceAt (pieceAt_digits hd hds hrest)

/-- The items of a list behind the first one are scanned one after the other. -/
theorem tokens_more {items : List (Value φ)}
    (h : ∀ v ∈ items, ∀ {rest}, Follows rest →
      Syntax.tokens (v.repr.toList ++ rest) = v.tokens ++ Syntax.tokens rest) (rest : List Char) :
    Syntax.tokens ((items.flatMap fun item => ',' :: ' ' :: item.repr.toList) ++ ']' :: rest) =
      moreTokens items ++ Syntax.tokens (']' :: rest) := by
  induction items with
  | nil => rfl
  | cons item items ih =>
    obtain ⟨hitem, hitems⟩ := List.forall_mem_cons.1 h
    have hcomma : ∀ cs : List Char,
        Syntax.tokens (',' :: ' ' :: cs) = .symbol .comma :: Syntax.tokens cs := fun cs =>
      (Syntax.tokens_cons ',' _).trans (congrArg _ (Syntax.tokens_cons ' ' cs))
    rw [List.flatMap_cons, moreTokens, List.append_assoc, List.cons_append, List.cons_append,
      hcomma, hitem (follows_more items rest), ih hitems, List.cons_append, List.append_assoc]

/-- The scan reads the tokens of a literal from its text. -/
theorem IsLiteral.tokens_repr {most : Nat} {v : Value φ} (h : v.IsLiteral most)
    (hrest : Follows rest) :
    Syntax.tokens (v.repr.toList ++ rest) = v.tokens ++ Syntax.tokens rest := by
  -- What follows an item of a list is the rest of the list, so the induction is for anything that
  -- may follow.
  induction h generalizing rest with
  | none =>
    rw [repr_none, tokens_keyword _ hrest, tokens]
    rfl
  | bool b =>
    rw [repr_bool, tokens_keyword _ hrest, tokens]
    rfl
  | @int most n hn =>
    rw [repr_int, toList_toString_toInt, tokens]
    split
    · exact (Syntax.tokens_cons '-' _).trans (congrArg _ (tokens_digits n hrest))
    · exact tokens_digits n hrest
  | str s =>
    rw [repr_str, toList_quoted, List.cons_append, List.append_assoc, Syntax.tokens_cons,
      List.singleton_append, pieceAt_quoted]
    simp [tokens, ← List.drop_drop]
  | @list most items h ih =>
    have hopen : ∀ cs : List Char,
        Syntax.tokens ('[' :: cs) = .symbol .openBracket :: Syntax.tokens cs := fun cs =>
      Syntax.tokens_cons '[' cs
    have hclose : Syntax.tokens (']' :: rest) = .symbol .closeBracket :: Syntax.tokens rest :=
      Syntax.tokens_cons ']' rest
    cases items with
    | nil =>
      rw [toList_repr_nil]
      exact (hopen (']' :: rest)).trans (congrArg _ hclose)
    | cons item items =>
      obtain ⟨hitem, hitems⟩ := List.forall_mem_cons.1 ih
      rw [toList_repr_cons, List.cons_append, hopen, List.append_assoc, List.append_assoc,
        List.singleton_append, hitem (follows_more items rest), tokens_more hitems, hclose, tokens,
        listTokens]
      simp

/-- A literal is written on one line. -/
theorem IsLiteral.newline_notMem_repr {most : Nat} {v : Value φ} (h : v.IsLiteral most) :
    '\n' ∉ v.repr.toList := by
  induction h with
  | none =>
    rw [repr_none]
    exact newline_notMem_spelling _
  | bool b =>
    rw [repr_bool]
    exact newline_notMem_spelling _
  | @int most n hn =>
    have hdigits : '\n' ∉ (digits n).toList := by
      rw [digits, String.toList_ofList]
      exact fun hmem => Bool.noConfusion (Wire.Json.isDigit_toDigits _ _ hmem)
    rw [repr_int, toList_toString_toInt]
    split
    · simpa using hdigits
    · exact hdigits
  | str s =>
    -- The end of a line is escaped in a text.
    have hquote := (isQuote_quoteFor s).ne_newline.symm
    simp [repr_str, toList_quoted, hquote, newline_notMem_escaped s]
  | @list most items h ih =>
    cases items with
    | nil => simp [toList_repr_nil]
    | cons item items =>
      obtain ⟨hitem, hitems⟩ := List.forall_mem_cons.1 ih
      simpa [toList_repr_cons, hitem] using hitems

/-! ## The check of the nesting -/

section Nesting

open Syntax.Nesting (Depth Inert step excessFrom)

variable {depth : Depth} {limit brackets line : Nat}

/-- The check goes on behind what a character extends over, unless it is too deep there. -/
theorem excessFrom_cons (hc : c ≠ '\n') (hle : (step depth c rest).1.total ≤ limit) :
    excessFrom limit 0 depth line (c :: rest) =
      excessFrom limit 0 (step depth c rest).1 line (rest.drop (step depth c rest).2) := by
  rw [excessFrom, ← Syntax.Nesting.excessFrom_eq_drop]
  simp only [if_neg hc]
  exact if_neg (Nat.not_lt.2 hle)

theorem excessFrom_inert (hc : Inert c) (hline : c ≠ '\n') (hle : depth.brackets ≤ limit) :
    excessFrom limit 0 depth line (c :: rest) =
      excessFrom limit 0 ⟨depth.brackets, 0⟩ line rest := by
  rw [excessFrom_cons hline (by rwa [hc]), hc]
  rfl

/-- Digits open nothing, and they end a run of prefix operators. -/
theorem excessFrom_digits (n : Int64) (hle : depth.brackets ≤ limit) :
    excessFrom limit 0 depth line ((digits n).toList ++ rest) =
      excessFrom limit 0 ⟨depth.brackets, 0⟩ line rest := by
  have hdigit : ∀ {depth : Depth} {d : Char} {rest : List Char}, d.isDigit = true →
      depth.brackets ≤ limit → excessFrom limit 0 depth line (d :: rest) =
        excessFrom limit 0 ⟨depth.brackets, 0⟩ line rest := by
    intro depth d rest hd hle
    refine excessFrom_inert (Syntax.Nesting.inert_of_isDigit hd) ?_ hle
    rintro rfl
    cases hd
  -- Digits behind the first one change nothing any more.
  have hdigits : ∀ ds : List Char, (∀ d ∈ ds, d.isDigit = true) →
      excessFrom limit 0 ⟨depth.brackets, 0⟩ line (ds ++ rest) =
        excessFrom limit 0 ⟨depth.brackets, 0⟩ line rest := by
    intro ds hds
    induction ds with
    | nil => rfl
    | cons d ds ih =>
      obtain ⟨hd, hds⟩ := List.forall_mem_cons.1 hds
      have hfirst : excessFrom limit 0 ⟨depth.brackets, 0⟩ line (d :: (ds ++ rest)) =
          excessFrom limit 0 ⟨depth.brackets, 0⟩ line (ds ++ rest) := hdigit hd hle
      exact hfirst.trans (ih hds)
  have hall := Wire.Json.isDigit_toDigits n.toInt.natAbs
  rw [digits, String.toList_ofList]
  cases hds : Nat.toDigits 10 n.toInt.natAbs with
  | nil => exact absurd hds Nat.toDigits_ne_nil
  | cons d ds =>
    rw [hds] at hall
    obtain ⟨hd, hds⟩ := List.forall_mem_cons.1 hall
    exact (hdigit hd hle).trans (hdigits ds hds)

/-- The check of the nesting passes over a keyword other than `not`, and no prefix operator is open
    after it. -/
theorem excessFrom_keyword {k : Keyword} (hk : k ≠ .notKw) (hrest : Follows rest)
    (hle : depth.brackets ≤ limit) :
    excessFrom limit 0 depth line (k.spelling.toList ++ rest) =
      excessFrom limit 0 ⟨depth.brackets, 0⟩ line rest := by
  obtain ⟨c, cs, hspelling, hc, hcs⟩ := exists_spelling k
  have hnot : c :: cs ≠ ['n', 'o', 't'] := by
    rintro heq
    have hkeyword := Syntax.Nesting.ofSpelling?_eq_not_iff.2 heq
    rw [← hspelling, String.ofList_toList, ofSpelling?_spelling] at hkeyword
    exact hk (Option.some.inj hkeyword)
  have hstep : step depth c (cs ++ rest) = (⟨depth.brackets, 0⟩, cs.length) := by
    rw [Syntax.Nesting.step_of_isWordStart hc, hrest.takeWhile_append rfl rfl hcs, if_neg hnot]
  have hline : c ≠ '\n' := by
    rintro rfl
    cases hc
  rw [hspelling, List.cons_append, excessFrom_cons hline (by rwa [hstep]), hstep]
  exact congrArg _ List.drop_left

/-- The check of the nesting passes over a text as it is written. -/
theorem excessFrom_quoted (s : String) (hle : depth.brackets ≤ limit) :
    excessFrom limit 0 depth line ((quoted s).toList ++ rest) =
      excessFrom limit 0 ⟨depth.brackets, 0⟩ line rest := by
  have hlength := (quoted_escaped s).quotedLength_of_notMem (isQuote_quoteFor s)
    (newline_notMem_escaped s) rest
  rw [toList_quoted, List.cons_append, List.append_assoc, List.singleton_append,
    Syntax.excessFrom_quote (isQuote_quoteFor s), if_neg (Nat.not_lt.2 hle), hlength,
    ← List.drop_drop, List.drop_left, List.drop_one, List.tail_cons]

/-- The check of the nesting passes over the items of a list after the first one, if it does over
    each of them. -/
theorem excessFrom_more {items : List (Value φ)} (hle : brackets ≤ limit)
    (h : ∀ v ∈ items, ∀ {rest}, Follows rest →
      excessFrom limit 0 ⟨brackets, 0⟩ line (v.repr.toList ++ rest) =
        excessFrom limit 0 ⟨brackets, 0⟩ line rest) (rest : List Char) :
    excessFrom limit 0 ⟨brackets, 0⟩ line
        ((items.flatMap fun item => ',' :: ' ' :: item.repr.toList) ++ ']' :: rest) =
      excessFrom limit 0 ⟨brackets, 0⟩ line (']' :: rest) := by
  induction items with
  | nil => rfl
  | cons item items ih =>
    obtain ⟨hitem, hitems⟩ := List.forall_mem_cons.1 h
    -- Neither a comma nor a blank nests anything.
    have hcomma : ∀ cs, excessFrom limit 0 ⟨brackets, 0⟩ line (',' :: ' ' :: cs) =
        excessFrom limit 0 ⟨brackets, 0⟩ line cs := fun cs =>
      (excessFrom_cons (by decide) hle).trans (excessFrom_cons (by decide) hle)
    rw [List.flatMap_cons, List.append_assoc, List.cons_append, List.cons_append, hcomma,
      hitem (follows_more items rest), ih hitems]

/-- The check finds a literal as deep as its lists are, and as deep as before behind it. -/
theorem IsLiteral.excessFrom_repr {most : Nat} {v : Value φ} (h : v.IsLiteral most)
    (hlt : brackets + most < limit) (hrest : Follows rest) :
    excessFrom limit 0 ⟨brackets, 0⟩ line (v.repr.toList ++ rest) =
      excessFrom limit 0 ⟨brackets, 0⟩ line rest := by
  -- A sign in front of a number counts as much as one more bracket.
  have hsign : brackets + 1 ≤ limit := by omega
  have hle : brackets ≤ limit := by omega
  induction h generalizing brackets rest with
  | none =>
    rw [repr_none]
    exact excessFrom_keyword (by decide) hrest hle
  | bool b =>
    have hnot : truthKw b ≠ .notKw := by cases b <;> decide
    rw [repr_bool]
    exact excessFrom_keyword hnot hrest hle
  | @int most n hn =>
    rw [repr_int, toList_toString_toInt]
    split
    · exact (excessFrom_cons (by decide) hsign).trans (excessFrom_digits n hle)
    · exact excessFrom_digits n hle
  | str s =>
    rw [repr_str]
    exact excessFrom_quoted s hle
  | @list most items h ih =>
    have hopen : ∀ cs : List Char, excessFrom limit 0 ⟨brackets, 0⟩ line ('[' :: cs) =
        excessFrom limit 0 ⟨brackets + 1, 0⟩ line cs := fun cs =>
      excessFrom_cons (by decide) hsign
    have hclose : excessFrom limit 0 ⟨brackets + 1, 0⟩ line (']' :: rest) =
        excessFrom limit 0 ⟨brackets, 0⟩ line rest :=
      excessFrom_cons (by decide) hle
    cases items with
    | nil =>
      rw [toList_repr_nil]
      exact (hopen (']' :: rest)).trans hclose
    | cons item items =>
      have hitems : ∀ v ∈ item :: items, ∀ {rest}, Follows rest →
          excessFrom limit 0 ⟨brackets + 1, 0⟩ line (v.repr.toList ++ rest) =
            excessFrom limit 0 ⟨brackets + 1, 0⟩ line rest := fun v hv _ hrest =>
        ih v hv (by omega) hrest (by omega) hsign
      obtain ⟨hitem, hmore⟩ := List.forall_mem_cons.1 hitems
      rw [toList_repr_cons, List.cons_append, hopen, List.append_assoc, List.append_assoc,
        List.singleton_append, hitem (follows_more items rest), excessFrom_more hsign hmore, hclose]

end Nesting

end Value

end Linewise
