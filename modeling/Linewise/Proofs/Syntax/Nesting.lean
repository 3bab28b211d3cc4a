import Mathlib
import Linewise.Proofs.Syntax.Quoted

/-!
# The nesting of tokens

The nesting of a script is bounded on its characters, before there are any tokens. The bound holds
of the tokens as well (`Nesting.staysWithin_of_excess?`), where the two readings of the characters
agree. They part at two places, which a *tidy* script does not have:

* a comment is over at a carriage return, but the check skips it up to the end of the line;
* a text goes on behind a backslash at the end of a line, but the check takes it to be over.
-/

namespace Linewise.Syntax

variable {c : Char} {cs rest : List Char}

/-! ## Tokens one after the other -/

/-- The tokens that characters spell. -/
def tokens (cs : List Char) : List Token := (scanFrom 0 ⟨1, 1⟩ 0 cs).map fun entry => entry.1.token

/-- The tokens of some characters do not depend on where they stand, and start behind those that
    are skipped. -/
theorem map_token_scanFrom (skip index : Nat) (place : Place) (cs : List Char) :
    (scanFrom skip place index cs).map (fun entry => entry.1.token) = tokens (cs.drop skip) := by
  induction cs generalizing skip place index with
  | nil => rw [List.drop_nil, scanFrom]; rfl
  | cons c rest ih =>
    have hpiece : ∀ place index,
        (scanFrom 0 place index (c :: rest)).map (fun entry => entry.1.token) =
          (pieceAt c rest).1.toList ++ tokens (rest.drop ((pieceAt c rest).2 - 1)) := by
      intro place index
      rw [scanFrom]
      split
      next h => rw [h, ih]; rfl
      next h => rw [h, List.map_cons, ih]; rfl
    cases skip with
    | zero => exact (hpiece ..).trans (hpiece ..).symm
    | succ skip => rw [scanFrom, ih, List.drop_succ_cons]

/-- The tokens of a text are the one at its beginning, if any, and those behind it. -/
theorem tokens_cons (c : Char) (rest : List Char) : tokens (c :: rest) =
    (pieceAt c rest).1.toList ++ tokens (rest.drop ((pieceAt c rest).2 - 1)) := by
  rw [tokens, scanFrom]
  split
  next h => rw [h, map_token_scanFrom]; rfl
  next h => rw [h, List.map_cons, map_token_scanFrom]; rfl

/-! ## Tidy scripts -/

/-- What characters start with ends on the line it starts on: no carriage return inside of the line
    ends a comment, and no text has the end of a line in it. -/
def tidyAt (c : Char) (rest : List Char) : Bool :=
  if c = '#' then
    match rest.dropWhile fun d => !isLineEnd d with
    | '\r' :: d :: _ => d = '\n'
    | _ => true
  else
    match (pieceAt c rest).1 with
    | some (.text raw) => !raw.contains '\n'
    | _ => true

/-- Every piece of some characters ends on the line it starts on. The first `skip` characters
    belong to a piece that has been looked at already. -/
def tidyFrom (skip : Nat) : List Char → Bool
  | [] => true
  | c :: rest =>
    match skip with
    | skip + 1 => tidyFrom skip rest
    | 0 => tidyAt c rest && tidyFrom ((pieceAt c rest).2 - 1) rest

/-- Every comment and every text in quotes ends on the line it starts on. -/
def Tidy (source : String) : Prop := tidyFrom 0 source.toList = true

instance (source : String) : Decidable (Tidy source) :=
  inferInstanceAs (Decidable (tidyFrom 0 source.toList = true))

/-- Skipped characters do not count. -/
theorem tidyFrom_eq_drop (skip : Nat) (cs : List Char) :
    tidyFrom skip cs = tidyFrom 0 (cs.drop skip) := by
  induction cs generalizing skip with
  | nil => rw [List.drop_nil]; rfl
  | cons c rest ih =>
    cases skip with
    | zero => rfl
    | succ skip => rw [tidyFrom, ih, List.drop_succ_cons]

theorem tidyFrom_cons (h : tidyFrom 0 (c :: rest) = true) :
    tidyAt c rest = true ∧ tidyFrom 0 (rest.drop ((pieceAt c rest).2 - 1)) = true := by
  rwa [tidyFrom, tidyFrom_eq_drop, Bool.and_eq_true] at h

/-! ## Depths -/

/-- The token is a character that starts none. -/
def Token.isStray : Token → Bool
  | .stray _ => true
  | _ => false

namespace Nesting

/-- The brackets and the prefix operators together. -/
def Depth.total (depth : Depth) : Nat := depth.brackets + depth.run

/-- The depth after a token. -/
def Depth.after (depth : Depth) : Token → Depth
  | .symbol .openParen | .symbol .openBracket | .symbol .openBrace => ⟨depth.brackets + 1, 0⟩
  | .symbol .closeParen | .symbol .closeBracket | .symbol .closeBrace => ⟨depth.brackets - 1, 0⟩
  | .symbol .minus | .keyword .notKw => ⟨depth.brackets, depth.run + 1⟩
  | _ => ⟨depth.brackets, 0⟩

/-- The depth stays within a limit over some tokens, up to the first stray one. -/
def Depth.StaysWithin (limit : Nat) (depth : Depth) : List Token → Prop
  | [] => depth.total ≤ limit
  | token :: rest => depth.total ≤ limit ∧
    (token.isStray = true ∨ (depth.after token).StaysWithin limit rest)

/-- The check of the nesting finds nothing in the characters that follow at a depth. -/
structure Shallow (limit : Nat) (depth : Depth) (cs : List Char) : Prop where
  total_le : depth.total ≤ limit
  accepted : ∃ line, excessFrom limit 0 depth line cs = none

variable {limit : Nat} {depth : Depth}

/-- The check finds nothing behind its step either. -/
theorem Shallow.next (h : Shallow limit depth (c :: rest)) :
    Shallow limit (step depth c rest).1 (rest.drop (step depth c rest).2) := by
  obtain ⟨line, hnone⟩ := h.accepted
  rw [excessFrom] at hnone
  dsimp only at hnone
  split at hnone
  · cases hnone
  next hle => exact ⟨Nat.le_of_not_lt hle, _, (excessFrom_eq_drop ..).symm.trans hnone⟩

/-- A carriage return changes nothing. -/
theorem Shallow.carriageReturn (h : Shallow limit depth rest) :
    Shallow limit depth ('\r' :: rest) := by
  obtain ⟨htotal, line, hnone⟩ := h
  refine ⟨htotal, line, ?_⟩
  rw [excessFrom]
  exact (if_neg (Nat.not_lt.2 htotal)).trans hnone

/-! ### Numbers and operators -/

/-- A character that neither opens nor closes anything and is no sign. -/
def Inert (c : Char) : Prop := ∀ depth rest, step depth c rest = (⟨depth.brackets, 0⟩, 0)

/-- No word starts with a digit. -/
theorem isWordStart_of_isDigit (hc : c.isDigit = true) : isWordStart c = false := by
  have hunderscore : c ≠ '_' := by
    rintro rfl
    cases hc
  have hrange : 48 ≤ c.toNat ∧ c.toNat ≤ 57 := by
    simpa [Char.isDigit, UInt32.le_iff_toNat_le] using hc
  simp [isWordStart, Char.isAlpha, Char.isUpper, Char.isLower, UInt32.le_iff_toNat_le, hunderscore]
  omega

theorem inert_of_isDigit (hc : c.isDigit = true) : Inert c := by
  intro depth rest
  have hne : ∀ d : Char, d.isDigit = false → c ≠ d := by
    rintro d hd rfl
    exact Bool.noConfusion (hc.symm.trans hd)
  simp [step, hne, isWordStart_of_isDigit hc]

/-- The characters of operators that are neither brackets nor signs, and the point of a number. -/
def isMark (c : Char) : Bool :=
  ['.', '=', '/', '<', '>', '!', '*', '%', '+', ',', ';'].contains c

theorem inert_of_isMark (hc : isMark c = true) : Inert c := by
  intro depth rest
  simp only [isMark, List.contains_iff_mem, List.mem_cons, List.not_mem_nil, or_false] at hc
  rcases hc with rfl | rfl | rfl | rfl | rfl | rfl | rfl | rfl | rfl | rfl | rfl <;> rfl

/-- Characters that open, close and sign nothing end a run of prefix operators. -/
theorem Shallow.drop_inert (h : Shallow limit depth (c :: rest)) (n : Nat)
    (hinert : ∀ d ∈ (c :: rest).take (n + 1), Inert d) :
    Shallow limit ⟨depth.brackets, 0⟩ (rest.drop n) := by
  induction n generalizing c rest depth with
  | zero => simpa [hinert c (by simp) depth rest] using h.next
  | succ n ih =>
    have hnext : Shallow limit ⟨depth.brackets, 0⟩ rest := by
      simpa [hinert c (by simp) depth rest] using h.next
    cases rest with
    | nil => exact hnext
    | cons d rest =>
      have hdrop := ih hnext fun e he => hinert e (List.mem_cons_of_mem _ he)
      exact hdrop

/-- A number has digits and at most one point. -/
theorem inert_of_mem_numberAt (cs : List Char) : ∀ d ∈ cs.take (numberAt cs).2, Inert d := by
  have hdigits : ∀ cs : List Char, ∀ d ∈ cs.take (cs.takeWhile Char.isDigit).length, Inert d := by
    intro cs d hd
    rw [← List.prefix_iff_eq_take.1 (List.takeWhile_prefix _)] at hd
    exact inert_of_isDigit (List.all_eq_true.1 List.all_takeWhile d hd)
  rw [numberAt]
  dsimp only
  split
  case h_1 fraction hdrop =>
    split
    · exact hdigits cs
    · rw [Nat.add_assoc, List.take_add, hdrop, Nat.add_comm 1, List.take_succ_cons]
      intro d hd
      rcases List.mem_append.1 hd with hd | hd
      · exact hdigits cs d hd
      · rcases List.mem_cons.1 hd with rfl | hd
        · exact inert_of_isMark rfl
        · exact hdigits fraction d hd
  case h_2 => exact hdigits cs

/-- A number ends a run of prefix operators and opens no bracket. -/
theorem after_numberAt (depth : Depth) (cs : List Char) :
    depth.after (numberAt cs).1 = ⟨depth.brackets, 0⟩ := by
  rw [numberAt]
  dsimp only
  split
  · split <;> rfl
  · rfl

/-- A number counts for nothing. -/
theorem Shallow.number (h : Shallow limit depth (c :: rest)) (hc : c.isDigit = true) :
    Shallow limit (depth.after (numberAt (c :: rest)).1)
      (rest.drop ((numberAt (c :: rest)).2 - 1)) := by
  rw [after_numberAt]
  cases hlength : (numberAt (c :: rest)).2 with
  | zero => exact h.drop_inert 0 (by simpa using inert_of_isDigit hc)
  | succ n => exact h.drop_inert n (hlength ▸ inert_of_mem_numberAt (c :: rest))

/-- A symbol changes the depth as its characters do. -/
theorem Shallow.symbol {s : Symbol} {length : Nat} (h : Shallow limit depth (c :: rest))
    (hs : symbolAt? (c :: rest) = some (s, length)) :
    Shallow limit (depth.after (.symbol s)) (rest.drop (length - 1)) := by
  have hmarks : ∀ n, ((c :: rest).take (n + 1)).all isMark = true →
      Shallow limit ⟨depth.brackets, 0⟩ (rest.drop n) := fun n hall =>
    h.drop_inert n fun d hd => inert_of_isMark (List.all_eq_true.1 hall d hd)
  unfold symbolAt? at hs
  split at hs <;> cases hs
  all_goals
    rename_i heq
    cases heq
  case h_1 | h_2 | h_3 | h_4 | h_5 => exact hmarks 1 rfl
  case h_6 | h_7 | h_8 | h_9 | h_10 | h_11 | h_12 | h_20 | h_21 => exact hmarks 0 rfl
  -- Brackets and the minus sign count.
  all_goals exact h.next

/-! ### Words -/

/-- Only `not` is spelled like that. -/
theorem ofSpelling?_eq_not_iff {letters : List Char} :
    Keyword.ofSpelling? (String.ofList letters) = some .notKw ↔ letters = ['n', 'o', 't'] := by
  constructor
  · intro h
    have hspelling := List.find?_some h
    simpa [Keyword.spelling] using (congrArg String.toList (of_decide_eq_true hspelling)).symm
  · rintro rfl
    decide

theorem takeWhile_isWordChar (hc : isWordStart c = true) :
    (c :: rest).takeWhile isWordChar = c :: rest.takeWhile isWordChar := by
  refine List.takeWhile_cons_of_pos ?_
  simp only [isWordStart, isWordChar, Char.isAlphanum, Bool.or_eq_true] at hc ⊢
  exact hc.imp_left .inl

/-- At the beginning of a word the check goes over the whole word, which opens a prefix operator if
    it is `not`. -/
theorem step_of_isWordStart (hc : isWordStart c = true) : step depth c rest =
    (⟨depth.brackets, if c :: rest.takeWhile isWordChar = ['n', 'o', 't'] then depth.run + 1
      else 0⟩, (rest.takeWhile isWordChar).length) := by
  have hne : ∀ d, isWordStart d = false → c ≠ d := by
    rintro d hd rfl
    exact Bool.noConfusion (hc.symm.trans hd)
  simp [step, hc, hne '\n' rfl, hne ' ' rfl, hne '\t' rfl, hne '\r' rfl, hne '#' rfl, hne '"' rfl,
    hne '\'' rfl, hne '(' rfl, hne '[' rfl, hne '\x7b' rfl, hne ')' rfl, hne ']' rfl,
    hne '\x7d' rfl, hne '-' rfl]
  split <;> rfl

/-- A word counts when it is `not`. -/
theorem after_wordAt (depth : Depth) (cs : List Char) : depth.after (wordAt cs).1 =
    ⟨depth.brackets, if cs.takeWhile isWordChar = ['n', 'o', 't'] then depth.run + 1 else 0⟩ := by
  rw [wordAt]
  dsimp only
  cases hk : Keyword.ofSpelling? (String.ofList (cs.takeWhile isWordChar)) with
  | none =>
    have hnot : cs.takeWhile isWordChar ≠ ['n', 'o', 't'] := fun h =>
      nomatch hk.symm.trans (ofSpelling?_eq_not_iff.2 h)
    rw [if_neg hnot]
    rfl
  | some k =>
    have hiff : cs.takeWhile isWordChar = ['n', 'o', 't'] ↔ k = .notKw := by
      rw [← ofSpelling?_eq_not_iff, hk, Option.some.injEq]
    simp only [hiff]
    cases k <;> rfl

/-- The check finds nothing behind a word, and its depth is the one after the word's token. -/
theorem Shallow.word (h : Shallow limit depth (c :: rest)) (hc : isWordStart c = true) :
    Shallow limit (depth.after (wordAt (c :: rest)).1)
      (rest.drop ((wordAt (c :: rest)).2 - 1)) := by
  have hnext := h.next
  rw [step_of_isWordStart hc] at hnext
  rwa [after_wordAt, wordAt, takeWhile_isWordChar hc]

/-! ### Comments -/

/-- What the check skips of a comment is what the scan skips and the rest of the line. -/
theorem dropWhile_line (rest : List Char) : rest.dropWhile (fun d => decide (d ≠ '\n')) =
    (rest.dropWhile fun d => !isLineEnd d).dropWhile fun d => decide (d ≠ '\n') := by
  induction rest with
  | nil => rfl
  | cons d rest ih =>
    by_cases hd : isLineEnd d = true
    · rw [List.dropWhile_cons_of_neg (p := fun d => !isLineEnd d) (by simp [hd])]
    · have hne : d ≠ '\n' := by
        rintro rfl
        exact hd rfl
      rw [List.dropWhile_cons_of_pos (by simpa using hne), ih,
        List.dropWhile_cons_of_pos (p := fun d => !isLineEnd d) (by simpa using hd)]

/-- The check and the scan agree on where a comment ends, apart from the carriage return at the end
    of its line. -/
theorem Shallow.comment (h : Shallow limit depth ('#' :: rest)) (htidy : tidyAt '#' rest = true) :
    Shallow limit depth (rest.drop (rest.takeWhile fun d => !isLineEnd d).length) := by
  have hnext : Shallow limit depth (rest.drop (rest.takeWhile fun d => decide (d ≠ '\n')).length) :=
    h.next
  rw [drop_length_takeWhile, dropWhile_line] at hnext
  rw [drop_length_takeWhile]
  rw [tidyAt, if_pos rfl] at htidy
  cases hafter : rest.dropWhile fun d => !isLineEnd d with
  | nil => rwa [hafter] at hnext
  | cons e after =>
    have hend : e = '\n' ∨ e = '\r' := by
      have hhead := List.head_dropWhile_not (fun d => !isLineEnd d)
        (hafter ▸ List.cons_ne_nil e after)
      simp only [hafter, List.head_cons] at hhead
      simpa [isLineEnd, Decidable.or_iff_not_imp_left] using hhead
    rw [hafter] at hnext
    rcases hend with rfl | rfl
    · exact hnext
    -- A tidy source has a line feed behind the return, so the scan goes on from the same place.
    · refine Shallow.carriageReturn ?_
      cases after with
      | nil => exact hnext
      | cons d after =>
        rw [hafter] at htidy
        obtain rfl : d = '\n' := by simpa using htidy
        exact hnext

/-! ### All pieces -/

/-- Blanks and comments change nothing. -/
theorem Shallow.skip {length : Nat} (h : Shallow limit depth (c :: rest))
    (htidy : tidyAt c rest = true) (hp : pieceAt c rest = (none, length)) :
    Shallow limit depth (rest.drop (length - 1)) := by
  rw [pieceAt] at hp
  split at hp
  next hblank =>
    cases hp
    have hnext := h.next
    simp only [Bool.or_eq_true, decide_eq_true_eq] at hblank
    rcases hblank with (rfl | rfl) | rfl <;> exact hnext
  split at hp
  next hcomment =>
    cases hp
    subst hcomment
    rw [Nat.add_sub_cancel_left]
    exact h.comment htidy
  split at hp
  · cases hp
  split at hp
  · cases hp
  split at hp
  · cases hp
  split at hp
  · split at hp <;> cases hp
  · split at hp <;> cases hp

/-- Tokens change the depth as their characters do, unless they are stray. -/
theorem Shallow.token {token : Token} {length : Nat} (h : Shallow limit depth (c :: rest))
    (htidy : tidyAt c rest = true) (hp : pieceAt c rest = (some token, length)) :
    token.isStray = true ∨ Shallow limit (depth.after token) (rest.drop (length - 1)) := by
  have hraw : ∀ raw, c ≠ '#' → token = .text raw → '\n' ∉ raw := by
    rintro raw hc rfl
    simpa [tidyAt, hc, hp] using htidy
  rw [pieceAt] at hp
  split at hp
  · cases hp
  split at hp
  · cases hp
  next hcomment =>
  split at hp
  next hline =>
    cases hp
    subst hline
    exact .inr h.next
  split at hp
  next hword =>
    cases hp
    exact .inr (h.word hword)
  split at hp
  next hdigit =>
    cases hp
    exact .inr (h.number hdigit)
  split at hp
  next hquote =>
    split at hp
    next body hbody =>
      cases hp
      have hquote : IsQuote c := by simpa [IsQuote] using hquote
      -- Without a line feed inside it the string is skipped as a whole.
      have hlength : quotedLength c rest = body.length + 1 := by
        obtain ⟨hquoted, after, rfl⟩ := quoted_of_quotedBody? hbody
        exact hquoted.quotedLength_of_notMem hquote (hraw body hcomment rfl) after
      have hnext : Shallow limit ⟨depth.brackets, 0⟩ (rest.drop (quotedLength c rest)) := by
        rcases hquote with rfl | rfl <;> exact h.next
      rw [hlength] at hnext
      exact .inr hnext
    · cases hp
      exact .inl rfl
  · split at hp
    next hs =>
      cases hp
      exact .inr (h.symbol hs)
    · cases hp
      exact .inl rfl

/-- Where the check of the nesting finds nothing from some characters on, the brackets in their
    tokens never nest more deeply than the limit. -/
theorem Shallow.staysWithin (h : Shallow limit depth cs) (htidy : tidyFrom 0 cs = true) :
    depth.StaysWithin limit (tokens cs) := by
  induction hlength : cs.length using Nat.strongRecOn generalizing cs depth with
  | ind n ih =>
  cases cs with
  | nil => exact ⟨h.total_le, .inr (Nat.le_trans (Nat.le_add_right _ _) h.total_le)⟩
  | cons c rest =>
    obtain ⟨hhere, hrest⟩ := tidyFrom_cons htidy
    have hlt : (rest.drop ((pieceAt c rest).2 - 1)).length < n := by
      rw [← hlength, List.length_drop, List.length_cons]
      omega
    -- The scan goes on behind the whole piece, so the induction is on the length of what is left.
    rw [tokens_cons]
    cases hp : pieceAt c rest with
    | mk token? length =>
      rw [hp] at hrest hlt
      cases token? with
      | none => exact ih _ hlt (h.skip hhere hp) hrest rfl
      | some token =>
        refine ⟨h.total_le, (h.token hhere hp).imp_right fun hafter => ?_⟩
        exact ih _ hlt hafter hrest rfl

/-- The nesting of the tokens of a tidy script stays within the limit that its characters were
    checked against. -/
theorem staysWithin_of_excess? {source : String} (h : excess? limit source = none)
    (htidy : Tidy source) :
    (⟨0, 0⟩ : Depth).StaysWithin limit ((scan source).map fun entry => entry.1.token) := by
  have hshallow : Shallow limit ⟨0, 0⟩ source.toList := ⟨Nat.zero_le _, 1, h⟩
  exact hshallow.staysWithin htidy

end Nesting

end Linewise.Syntax
