import Mathlib
import Linewise.Proofs.Syntax.Nesting
import Linewise.Syntax.Parse

/-!
# Ends of lines

Some texts end their lines with a carriage return and a newline, others with a newline alone. A
text spells the same program either way, on the same lines (`Program.parse_withReturns`):

* the scan takes a carriage return for a blank, and comments and texts in quotes are over at
  either of the two characters, so the lexemes are the same (`map_fst_scanFrom_withReturns`);
* the check of the nesting takes it for a blank too, unless it is the last character of a comment
  or of a text that nothing closes (`Nesting.step_withReturns`).

There is one exception. A backslash keeps the next character from being read, and that is the
carriage return as soon as there is one. So no newline may stand right behind a backslash.
-/

namespace Linewise

namespace Syntax

/-- The characters with a carriage return in front of each newline. -/
def withReturns (cs : List Char) : List Char :=
  cs.flatMap fun c => if c = '\n' then ['\r', '\n'] else [c]

variable {c quote : Char} {cs rest : List Char} {p : Char → Bool}

@[simp]
theorem withReturns_nil : withReturns [] = [] := rfl

@[simp]
theorem withReturns_newline (rest : List Char) :
    withReturns ('\n' :: rest) = '\r' :: '\n' :: withReturns rest :=
  rfl

theorem withReturns_cons (hc : c ≠ '\n') (rest : List Char) :
    withReturns (c :: rest) = c :: withReturns rest := by
  simp [withReturns, hc]

/-- Where no newline is skipped, nothing else is. -/
theorem drop_withReturns {n : Nat} (h : '\n' ∉ cs.take n) :
    (withReturns cs).drop n = withReturns (cs.drop n) := by
  induction n generalizing cs with
  | zero => rfl
  | succ n ih =>
    cases cs with
    | nil => rfl
    | cons c rest =>
      obtain ⟨hc, hrest⟩ := not_or.1 (List.mem_cons.not.1 h)
      rw [withReturns_cons (Ne.symm hc), List.drop_succ_cons, List.drop_succ_cons, ih hrest]

/-- What is over at the end of a line is the same whichever way the line ends. -/
theorem takeWhile_withReturns (hnewline : p '\n' = false) (hreturn : p '\r' = false)
    (cs : List Char) : (withReturns cs).takeWhile p = cs.takeWhile p := by
  induction cs with
  | nil => rfl
  | cons c rest ih =>
    by_cases hc : c = '\n'
    · subst hc
      rw [withReturns_newline, List.takeWhile_cons_of_neg (by simp [hreturn]),
        List.takeWhile_cons_of_neg (by simp [hnewline])]
    · rw [withReturns_cons hc, List.takeWhile_cons, List.takeWhile_cons, ih]

theorem newline_notMem_take_takeWhile (hnewline : p '\n' = false) (cs : List Char) :
    '\n' ∉ cs.take (cs.takeWhile p).length := by
  rw [← List.prefix_iff_eq_take.1 (List.takeWhile_prefix p)]
  intro hmem
  exact Bool.noConfusion (hnewline.symm.trans (List.mem_takeWhile_imp hmem))

theorem not_infix_of_cons (h : ¬['\\', '\n'] <:+: c :: rest) : ¬['\\', '\n'] <:+: rest :=
  fun hrest => h (hrest.trans (List.suffix_cons c rest).isInfix)

theorem not_infix_drop (h : ¬['\\', '\n'] <:+: cs) (n : Nat) : ¬['\\', '\n'] <:+: cs.drop n :=
  fun hdrop => h (hdrop.trans (List.drop_suffix n cs).isInfix)

/-! ## Pieces -/

/-- A text in quotes has the same body with returns in front of line feeds, as long as none of these
    is escaped. -/
theorem quotedBody?_withReturns (hquote : IsQuote quote) (h : ¬['\\', '\n'] <:+: cs) :
    quotedBody? quote (withReturns cs) = quotedBody? quote cs := by
  have hnewline : '\n' ≠ quote := hquote.ne_newline.symm
  have hreturn : '\r' ≠ quote := by rcases hquote with rfl | rfl <;> decide
  fun_induction quotedBody? quote cs with
  | case1 => rfl
  | case2 rest => rw [withReturns_cons hnewline.symm, quotedBody?.eq_def]; simp
  | case3 hne => rw [withReturns_cons (by decide), quotedBody?.eq_def]; simp [hne]
  | case4 d rest hne ih =>
    have hd : d ≠ '\n' := by
      rintro rfl
      exact h (List.prefix_append ['\\', '\n'] rest).isInfix
    rw [withReturns_cons (by decide), withReturns_cons hd, quotedBody?.eq_def]
    simp [hne, ih (not_infix_of_cons (not_infix_of_cons h))]
  | case5 c rest hne hbackslash hline =>
    -- The end of a line ends the text without a quote, be it a line feed or a return.
    by_cases hc : c = '\n'
    · rw [hc, withReturns_newline, quotedBody?.eq_def]
      simp [hreturn, isLineEnd]
    · rw [withReturns_cons hc, quotedBody?.eq_def]
      simp [hne, hbackslash, hline]
  | case6 c rest hne hbackslash hline ih =>
    have hc : c ≠ '\n' := by
      rintro rfl
      exact hline rfl
    rw [withReturns_cons hc, quotedBody?.eq_def]
    simp [hne, hbackslash, hline, ih (not_infix_of_cons h)]

/-- A number is the same with returns in front of line feeds. -/
theorem numberAt_withReturns (cs : List Char) : numberAt (withReturns cs) = numberAt cs := by
  have hwhole : (withReturns cs).takeWhile Char.isDigit = cs.takeWhile Char.isDigit :=
    takeWhile_withReturns rfl rfl cs
  have hdrop := drop_withReturns (newline_notMem_take_takeWhile (p := Char.isDigit) rfl cs)
  rw [numberAt, numberAt, hwhole, hdrop]
  cases cs.drop (cs.takeWhile Char.isDigit).length with
  | nil => rfl
  | cons c rest =>
    by_cases hc : c = '\n'
    · rw [hc]; rfl
    · rw [withReturns_cons hc]
      -- Behind a point there may be more digits, which end before a return as well.
      by_cases hpoint : c = '.'
      · subst hpoint
        simp only [takeWhile_withReturns (p := Char.isDigit) rfl rfl rest]
      · simp [hpoint]

/-- The characters that symbols begin with. -/
def symbolStarts : List Char :=
  ['=', '!', '<', '>', '/', '*', '%', '+', '-', '(', ')', '[', ']', '\x7b', '\x7d', ',', ';']

theorem symbolAt?_of_notMem (h : c ∉ symbolStarts) (rest : List Char) :
    symbolAt? (c :: rest) = none := by
  rw [symbolAt?.eq_def]
  split
  case h_22 => rfl
  all_goals
    next heq =>
    cases heq
    exact absurd (by decide) h

/-- A symbol has no second character but two. -/
theorem symbolAt?_of_ne {c d : Char} (heq : d ≠ '=') (hslash : d ≠ '/') (rest : List Char) :
    symbolAt? (c :: d :: rest) = symbolAt? [c] := by
  by_cases hmem : c ∈ symbolStarts
  · simp only [symbolStarts, List.mem_cons, List.not_mem_nil, or_false] at hmem
    rcases hmem with rfl | rfl | rfl | rfl | rfl | rfl | rfl | rfl | rfl | rfl | rfl | rfl | rfl |
      rfl | rfl | rfl | rfl
    all_goals first | rfl | simp [symbolAt?, heq, hslash]
  · rw [symbolAt?_of_notMem hmem, symbolAt?_of_notMem hmem]

/-- A symbol has no third character. -/
theorem symbolAt?_tail (c d : Char) (rest rest' : List Char) :
    symbolAt? (c :: d :: rest) = symbolAt? (c :: d :: rest') := by
  by_cases hnext : d ≠ '=' ∧ d ≠ '/'
  · rw [symbolAt?_of_ne hnext.1 hnext.2, symbolAt?_of_ne hnext.1 hnext.2]
  by_cases hmem : c ∈ symbolStarts
  · have hsecond : d = '=' ∨ d = '/' := by
      rwa [not_and_or, not_not, not_not] at hnext
    simp only [symbolStarts, List.mem_cons, List.not_mem_nil, or_false] at hmem
    rcases hsecond with rfl | rfl
    -- With both characters known, each symbol is read off.
    all_goals
      rcases hmem with rfl | rfl | rfl | rfl | rfl | rfl | rfl | rfl | rfl | rfl | rfl | rfl |
        rfl | rfl | rfl | rfl | rfl
    all_goals rfl
  · rw [symbolAt?_of_notMem hmem, symbolAt?_of_notMem hmem]

/-- A symbol is the same with returns in front of line feeds. -/
theorem symbolAt?_withReturns (c : Char) (rest : List Char) :
    symbolAt? (c :: withReturns rest) = symbolAt? (c :: rest) := by
  cases rest with
  | nil => rfl
  | cons d rest =>
    by_cases hd : d = '\n'
    · subst hd
      rw [withReturns_newline, symbolAt?_of_ne (by decide) (by decide),
        symbolAt?_of_ne (by decide) (by decide)]
    · rw [withReturns_cons hd]
      exact symbolAt?_tail ..

/-- What characters start with does not depend on how their lines end. -/
theorem pieceAt_withReturns (hc : c ≠ '\n') (h : ¬['\\', '\n'] <:+: rest) :
    pieceAt c (withReturns rest) = pieceAt c rest := by
  have hcons : c :: withReturns rest = withReturns (c :: rest) := (withReturns_cons hc rest).symm
  have hcomment : (withReturns rest).takeWhile (fun d => !isLineEnd d) =
      rest.takeWhile fun d => !isLineEnd d := takeWhile_withReturns rfl rfl rest
  have hword : wordAt (c :: withReturns rest) = wordAt (c :: rest) := by
    rw [wordAt, wordAt, hcons, takeWhile_withReturns rfl rfl]
  have hnumber : numberAt (c :: withReturns rest) = numberAt (c :: rest) := by
    rw [hcons, numberAt_withReturns]
  rw [pieceAt, pieceAt, hcomment, hword, hnumber, symbolAt?_withReturns]
  by_cases hquote : IsQuote c
  · rw [quotedBody?_withReturns hquote h]
  · have hnot : ¬(c = '"' || c = '\'') = true := by simpa [IsQuote] using hquote
    simp only [if_neg hnot]

/-- There is no end of a line in a number. -/
theorem newline_notMem_take_numberAt (cs : List Char) : '\n' ∉ cs.take (numberAt cs).2 := by
  have hdigits : ∀ cs : List Char, '\n' ∉ cs.take (cs.takeWhile Char.isDigit).length :=
    newline_notMem_take_takeWhile rfl
  rw [numberAt]
  dsimp only
  split
  next fraction hdrop =>
    split
    · exact hdigits cs
    · rw [Nat.add_assoc, List.take_add, hdrop, Nat.add_comm 1, List.take_succ_cons,
        List.mem_append, List.mem_cons]
      rintro (hmem | hpoint | hmem)
      · exact hdigits cs hmem
      · exact absurd hpoint (by decide)
      · exact hdigits fraction hmem
  · exact hdigits cs

/-- There is no end of a line in a symbol. -/
theorem newline_notMem_take_symbolAt? {s : Symbol} {length : Nat}
    (h : symbolAt? (c :: rest) = some (s, length)) : '\n' ∉ rest.take (length - 1) := by
  unfold symbolAt? at h
  split at h <;> cases h
  all_goals
    rename_i heq
    cases heq
    simp

/-- A text in quotes has the end of a line in it only behind a backslash. -/
theorem Quoted.newline_notMem {body : List Char} (hbody : Quoted quote body)
    (h : ¬['\\', '\n'] <:+: body) : '\n' ∉ body := by
  induction hbody with
  | nil => exact List.not_mem_nil
  | @escape d body hbody ih =>
    have hrest := ih (not_infix_of_cons (not_infix_of_cons h))
    rintro (_ | ⟨_, _ | ⟨_, hmem⟩⟩)
    · exact h (List.prefix_append ['\\', '\n'] body).isInfix
    · exact hrest hmem
  | plain _ _ hline hbody ih =>
    rintro (_ | ⟨_, hmem⟩)
    · exact Bool.noConfusion hline
    · exact ih (not_infix_of_cons h) hmem

/-- No piece but the end of a line has one in it. -/
theorem newline_notMem_take_pieceAt (hc : c ≠ '\n') (h : ¬['\\', '\n'] <:+: rest) :
    '\n' ∉ rest.take ((pieceAt c rest).2 - 1) := by
  rw [pieceAt, if_neg hc]
  split
  · simp
  split
  · rw [Nat.add_sub_cancel_left]
    exact newline_notMem_take_takeWhile rfl rest
  split
  next hword =>
    dsimp only [wordAt]
    rw [Nesting.takeWhile_isWordChar hword]
    exact newline_notMem_take_takeWhile rfl rest
  split
  · have hnumber := newline_notMem_take_numberAt (c :: rest)
    dsimp only
    intro hmem
    cases hlength : (numberAt (c :: rest)).2 with
    | zero => rw [hlength] at hmem; exact absurd hmem (by simp)
    | succ n =>
      rw [hlength] at hmem hnumber
      exact hnumber (List.mem_cons_of_mem c hmem)
  split
  next hquote =>
    split
    next body hbody =>
      obtain ⟨hquoted, after, rfl⟩ := quoted_of_quotedBody? hbody
      have hquote : IsQuote c := by simpa [IsQuote] using hquote
      -- A string holds a line feed only behind a backslash, which the source does not have.
      have hline : '\n' ∉ body := hquoted.newline_notMem fun hbody =>
        h (hbody.trans (List.prefix_append body (c :: after)).isInfix)
      have htake : (body ++ c :: after).take (body.length + 2 - 1) = body ++ [c] := by
        rw [Nat.add_sub_assoc (by decide), List.take_length_add_append]
        rfl
      rw [htake, List.mem_append, List.mem_singleton]
      exact not_or.2 ⟨hline, hquote.ne_newline.symm⟩
    · simp
  · split
    next hs => exact newline_notMem_take_symbolAt? hs
    · simp

/-! ## Lexemes -/

/-- The lexemes of a text do not depend on how its lines end. -/
theorem map_fst_scanFrom_withReturns {skip : Nat} {place place' : Place}
    (h : ¬['\\', '\n'] <:+: cs) (hskip : '\n' ∉ cs.take skip) (hline : place'.line = place.line)
    (index : Nat) : (scanFrom skip place' index (withReturns cs)).map Prod.fst =
      (scanFrom skip place index cs).map Prod.fst := by
  induction cs generalizing skip place place' index with
  | nil => rw [withReturns_nil, scanFrom, scanFrom, hline]; rfl
  | cons c rest ih =>
    have hrest := not_infix_of_cons h
    by_cases hc : c = '\n'
    · subst hc
      cases skip with
      | succ skip => exact absurd List.mem_cons_self hskip
      | zero =>
        -- The carriage return is a blank.
        have hreturn : scanFrom 0 place' index (withReturns ('\n' :: rest)) =
            scanFrom 0 (place'.after '\r') index ('\n' :: withReturns rest) := rfl
        have hafter : (place'.after '\r').line = place'.line := rfl
        have hlines : ((place'.after '\r').after '\n').line = (place.after '\n').line :=
          congrArg (· + 1) hline
        have hstart : '\n' ∉ rest.take 0 := List.not_mem_nil
        have hnext := ih hrest hstart hlines (index + 1)
        rw [hreturn, scanFrom, scanFrom]
        simpa [pieceAt, hafter, hline] using hnext
    · have hnext : (place'.after c).line = (place.after c).line := by
        simp [Place.after, hc, hline]
      rw [withReturns_cons hc]
      cases skip with
      | succ skip =>
        rw [List.take_succ_cons] at hskip
        exact ih hrest (fun hmem => hskip (List.mem_cons_of_mem c hmem)) hnext index
      | zero =>
        have hpiece := newline_notMem_take_pieceAt hc hrest
        rw [scanFrom, scanFrom, pieceAt_withReturns hc hrest]
        generalize pieceAt c rest = piece at hpiece
        obtain ⟨_ | token, length⟩ := piece
        · exact ih hrest hpiece hnext index
        · dsimp only at hpiece ⊢
          rw [List.map_cons, List.map_cons, ih hrest hpiece hnext, hline]

/-! ## The check of the nesting -/

namespace Nesting

variable {limit line : Nat} {depth : Depth}

/-- What is left of some characters with carriage returns is what it is without them, up to the
    carriage return at its beginning. -/
def Leaves (left : List Char) (cs : List Char) : Prop :=
  left = withReturns cs ∨ '\r' :: left = withReturns cs

/-- The check of the nesting leaves a comment at the end of its line, whether a return is there or
    not. -/
theorem leaves_line (cs : List Char) :
    Leaves ((withReturns cs).dropWhile fun d => decide (d ≠ '\n'))
      (cs.dropWhile fun d => decide (d ≠ '\n')) := by
  induction cs with
  | nil => exact .inl rfl
  | cons c rest ih =>
    by_cases hc : c = '\n'
    · subst hc
      exact .inr rfl
    · rw [withReturns_cons hc, List.dropWhile_cons_of_pos (by simp [hc]),
        List.dropWhile_cons_of_pos (by simp [hc])]
      exact ih

/-- The check of the nesting leaves a text in quotes at the same place with returns in front of line
    feeds, or else right at such a return. -/
theorem leaves_quoted (hquote : IsQuote quote) (h : ¬['\\', '\n'] <:+: cs) :
    Leaves ((withReturns cs).drop (quotedLength quote (withReturns cs)))
      (cs.drop (quotedLength quote cs)) := by
  have hnewline : '\n' ≠ quote := hquote.ne_newline.symm
  have hreturn : '\r' ≠ quote := by rcases hquote with rfl | rfl <;> decide
  fun_induction quotedLength quote cs with
  | case1 => exact .inl rfl
  | case2 rest =>
    -- A text that is not closed is left at the end of its line, where the return is now.
    refine .inr ?_
    rw [withReturns_newline, quotedLength.eq_def]
    simp [hreturn, quotedLength.eq_def quote ('\n' :: withReturns rest)]
  | case3 rest hline =>
    refine .inl ?_
    rw [withReturns_cons hline, quotedLength.eq_def]
    simp [hline]
  | case4 hline hne => exact .inl (by rw [withReturns_cons hline, quotedLength.eq_def]; simp [hne])
  | case5 rest hline hne => exact absurd (List.prefix_append ['\\', '\n'] rest).isInfix h
  | case6 d rest hline hne hquote ih =>
    rw [withReturns_cons hne, withReturns_cons hline, quotedLength.eq_def]
    simpa [hline, hquote, Nat.add_comm 2] using ih (not_infix_of_cons (not_infix_of_cons h))
  | case7 c rest hline hne hbackslash ih =>
    rw [withReturns_cons hline, quotedLength.eq_def]
    simpa [hline, hne, hbackslash, Nat.add_comm 1] using ih (not_infix_of_cons h)

/-- A step of the check of the nesting comes to the same depth with returns in front of line feeds,
    and to the same place. -/
theorem step_withReturns (depth : Depth) (hc : c ≠ '\n') (h : ¬['\\', '\n'] <:+: rest) :
    (step depth c (withReturns rest)).1 = (step depth c rest).1 ∧
      Leaves ((withReturns rest).drop (step depth c (withReturns rest)).2)
        (rest.drop (step depth c rest).2) := by
  have hcomment := leaves_line rest
  rw [← drop_length_takeWhile, ← drop_length_takeWhile] at hcomment
  have hsame : (withReturns rest).takeWhile isWordChar = rest.takeWhile isWordChar :=
    takeWhile_withReturns rfl rfl rest
  have hword := drop_withReturns (newline_notMem_take_takeWhile (p := isWordChar) rfl rest)
  have hnothing : Leaves ((withReturns rest).drop 0) (rest.drop 0) := .inl rfl
  -- What a step does is told from the character alone; only comments, texts and words go further.
  rw [step, step, if_neg hc, if_neg hc, hsame]
  split
  · exact ⟨rfl, hnothing⟩
  split
  · exact ⟨rfl, hcomment⟩
  split
  next hquote => exact ⟨rfl, leaves_quoted (by simpa [IsQuote] using hquote) h⟩
  split
  · exact ⟨rfl, hnothing⟩
  split
  · exact ⟨rfl, hnothing⟩
  split
  · exact ⟨rfl, hnothing⟩
  split
  · dsimp only
    split
    · exact ⟨rfl, .inl hword⟩
    · exact ⟨rfl, .inl hword⟩
  · exact ⟨rfl, hnothing⟩

/-- A return counts nothing. -/
theorem excessFrom_return (hle : depth.total ≤ limit) (cs : List Char) :
    excessFrom limit 0 depth line ('\r' :: cs) = excessFrom limit 0 depth line cs :=
  if_neg (Nat.not_lt.2 hle)

/-- Lines that end with a carriage return nest no deeper, nor less deep. -/
theorem excessFrom_withReturns (hle : depth.total ≤ limit) (h : ¬['\\', '\n'] <:+: cs) :
    excessFrom limit 0 depth line (withReturns cs) = excessFrom limit 0 depth line cs := by
  induction hlength : cs.length using Nat.strongRecOn generalizing cs depth line with
  | ind n ih =>
  cases cs with
  | nil => rfl
  | cons c rest =>
    have hrest := not_infix_of_cons h
    have hlt : ∀ skip, (rest.drop skip).length < n := fun skip => by
      rw [← hlength, List.length_drop, List.length_cons]
      omega
    by_cases hc : c = '\n'
    · subst hc
      have hbrackets : depth.brackets ≤ limit := Nat.le_trans (Nat.le_add_right _ _) hle
      -- The return in front of the line feed counts nothing, and the same line goes on.
      have hnext : excessFrom limit 0 ⟨depth.brackets, 0⟩ (line + 1) (withReturns rest) =
          excessFrom limit 0 ⟨depth.brackets, 0⟩ (line + 1) rest :=
        ih _ (hlt 0) hbrackets hrest rfl
      rw [withReturns_newline, excessFrom_return hle, excessFrom, excessFrom]
      simp [step, hnext]
    · obtain ⟨hdepth, hleaves⟩ := step_withReturns depth hc hrest
      rw [withReturns_cons hc, excessFrom, excessFrom]
      dsimp only
      rw [hdepth, excessFrom_eq_drop, excessFrom_eq_drop _ (step depth c rest).2]
      split
      · rfl
      next hexcess =>
        have htotal : (step depth c rest).1.total ≤ limit := Nat.le_of_not_lt hexcess
        rw [← ih _ (hlt _) htotal (not_infix_drop hrest _) rfl]
        -- What is skipped ends in front of the line feed, or in front of the return before it.
        rcases hleaves with hsame | hreturn
        · rw [hsame]
        · rw [← hreturn, excessFrom_return htotal]

/-- The check of the nesting gives the same answer for both endings of lines. -/
theorem excess?_withReturns {source : String} (h : ¬['\\', '\n'] <:+: source.toList) :
    excess? limit (String.ofList (withReturns source.toList)) = excess? limit source := by
  rw [excess?, excess?, String.toList_ofList]
  exact excessFrom_withReturns (Nat.zero_le limit) h

end Nesting

end Syntax

namespace Program

open Syntax (withReturns scan)

variable {limit : Nat} {source : String} {program : Program}

/-- The scan gives the same lexemes with returns in front of line feeds. -/
theorem map_fst_scan_withReturns (h : ¬['\\', '\n'] <:+: source.toList) :
    (scan (String.ofList (withReturns source.toList))).map Prod.fst =
      (scan source).map Prod.fst := by
  rw [scan, scan, String.toList_ofList]
  exact Syntax.map_fst_scanFrom_withReturns h (by simp) rfl 0

/-- Whether the grammar reads a text, and what it reads, is up to the lexemes. -/
theorem tree_eq_ok_iff {trees : List (Stmt Digits)} : tree source = .ok trees ↔
    (Syntax.Grammar.script ((scan source).map Prod.fst).length
      ((scan source).map Prod.fst) 0).1.map Prod.fst = some trees := by
  simp only [tree, List.length_map]
  split
  next hread => simp [hread]
  next hread =>
    rw [hread]
    split <;> simp

/-- A program that a text spells has a tree that the grammar reads. -/
theorem parse_eq_ok_iff : parse limit source = .ok program ↔
    Syntax.Nesting.excess? limit source = none ∧ ∃ trees unfolded, tree source = .ok trees ∧
      Stmt.resolveBody trees = .ok unfolded ∧ Stmt.foldBody unfolded = program := by
  rw [parse, unfolded]
  split
  next hexcess => simp [hexcess, Except.map]
  next hexcess =>
    split
    next htree => simp [htree, Except.map]
    next htree =>
      split
      next hresolve => simp [htree, hresolve, Except.map]
      next hresolve => simp [hexcess, htree, hresolve, Except.map]

/-- A text spells the same program, with each statement on the same line, when a carriage return
    is put in front of each newline. No newline may stand right behind a backslash, which would keep
    the carriage return instead. -/
theorem parse_withReturns (h : ¬['\\', '\n'] <:+: source.toList) :
    parse limit (String.ofList (withReturns source.toList)) = .ok program ↔
      parse limit source = .ok program := by
  rw [parse_eq_ok_iff, parse_eq_ok_iff, Syntax.Nesting.excess?_withReturns h]
  simp only [tree_eq_ok_iff, map_fst_scan_withReturns h]

/-- A conditional over four lines. -/
def annotated : Program :=
  [.branch 1 (.ident "a") [.assign 2 "b" (.str "c")] (.body [.pass 3])]

theorem parse_withReturns_annotated :
    ¬['\\', '\n'] <:+: "if a \x7b # note\nb = 'c'\n\x7d else \x7b pass\n\x7d".toList ∧
      parse 20 "if a \x7b # note\r\nb = 'c'\r\n\x7d else \x7b pass\r\n\x7d" = .ok annotated := by
  have hnone :
      ¬['\\', '\n'] <:+: "if a \x7b # note\nb = 'c'\n\x7d else \x7b pass\n\x7d".toList := by decide
  exact ⟨hnone, (parse_withReturns hnone).2 (by cbv)⟩

end Program

end Linewise
