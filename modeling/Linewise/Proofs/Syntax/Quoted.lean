import Mathlib
import Linewise.Syntax.Nesting

/-!
# Texts in quotes

Two readers look for the end of a text in quotes: the scan, which makes a token of it
(`quotedBody?`), and the check of the nesting, which skips it (`Nesting.quotedLength`). What may
stand between the quotes is said once here (`Quoted`), apart from both of them, and each is
compared with that:

* the scan finds exactly these texts (`quotedBody?_eq_some_iff`);
* the check ends where the text ends, or in front of the first end of a line in it
  (`Quoted.quotedLength_append`). Only a backslash can put one there, and the check, unlike the
  scan, lets no backslash reach over the end of a line.
-/

namespace Linewise.Syntax

variable {quote : Char} {cs body : List Char}

/-- What may stand between two quotes: a backslash with any character behind it, and characters
    that neither close the text, nor are a backslash, nor end the line. -/
inductive Quoted (quote : Char) : List Char → Prop
  | nil : Quoted quote []
  | escape {d : Char} {body : List Char} : Quoted quote body → Quoted quote ('\\' :: d :: body)
  | plain {c : Char} {body : List Char} : c ≠ quote → c ≠ '\\' → isLineEnd c = false →
      Quoted quote body → Quoted quote (c :: body)

/-- The characters that a text can stand in. -/
def IsQuote (quote : Char) : Prop := quote = '"' ∨ quote = '\''

instance (quote : Char) : Decidable (IsQuote quote) :=
  inferInstanceAs (Decidable (quote = '"' ∨ quote = '\''))

theorem IsQuote.ne_backslash (hquote : IsQuote quote) : quote ≠ '\\' := by
  rcases hquote with rfl | rfl <;> decide

theorem IsQuote.ne_newline (hquote : IsQuote quote) : quote ≠ '\n' := by
  rcases hquote with rfl | rfl <;> decide

/-! ## The scan -/

/-- The scan closes a text at the first quote that may close it, whatever follows. -/
theorem Quoted.quotedBody?_append (hbody : Quoted quote body) (hquote : IsQuote quote)
    (rest : List Char) : quotedBody? quote (body ++ quote :: rest) = some body := by
  induction hbody with
  | nil => rw [List.nil_append, quotedBody?.eq_def]; simp
  | escape hbody ih =>
    rw [List.cons_append, List.cons_append, quotedBody?.eq_def]
    simp [hquote.ne_backslash.symm, ih]
  | plain hne hbackslash hline hbody ih =>
    rw [List.cons_append, quotedBody?.eq_def]
    simp [hne, hbackslash, hline, ih]

/-- What is found up to the closing quote is a quoted body, and the quote stands behind it. -/
theorem quoted_of_quotedBody? (h : quotedBody? quote cs = some body) :
    Quoted quote body ∧ ∃ rest, cs = body ++ quote :: rest := by
  fun_induction quotedBody? quote cs generalizing body with
  | case1 => cases h
  | case2 rest => cases h; exact ⟨.nil, rest, rfl⟩
  | case3 hne => cases h
  | case4 d rest hne ih =>
    obtain ⟨inner, hinner, rfl⟩ := Option.map_eq_some_iff.1 h
    obtain ⟨hquoted, after, rfl⟩ := ih hinner
    exact ⟨.escape hquoted, after, rfl⟩
  | case5 c rest hne hbackslash hline => cases h
  | case6 c rest hne hbackslash hline ih =>
    obtain ⟨inner, hinner, rfl⟩ := Option.map_eq_some_iff.1 h
    obtain ⟨hquoted, after, rfl⟩ := ih hinner
    exact ⟨.plain hne hbackslash (Bool.eq_false_iff.2 hline) hquoted, after, rfl⟩

/-- The scan finds a text in quotes exactly where there is one. -/
theorem quotedBody?_eq_some_iff (hquote : IsQuote quote) : quotedBody? quote cs = some body ↔
    Quoted quote body ∧ ∃ rest, cs = body ++ quote :: rest := by
  constructor
  · exact quoted_of_quotedBody?
  · rintro ⟨hbody, rest, rfl⟩
    exact hbody.quotedBody?_append hquote rest

/-! ## The check of the nesting -/

namespace Nesting

/-- Skipped characters do not count. -/
theorem excessFrom_eq_drop (limit skip : Nat) (depth : Depth) (line : Nat) (cs : List Char) :
    excessFrom limit skip depth line cs = excessFrom limit 0 depth line (cs.drop skip) := by
  induction cs generalizing skip with
  | nil => rw [List.drop_nil]; rfl
  | cons c rest ih =>
    cases skip with
    | zero => rfl
    | succ skip => rw [excessFrom, ih, List.drop_succ_cons]

theorem drop_length_takeWhile {α : Type} (p : α → Bool) (l : List α) :
    l.drop (l.takeWhile p).length = l.dropWhile p :=
  calc l.drop (l.takeWhile p).length
    _ = (l.takeWhile p ++ l.dropWhile p).drop (l.takeWhile p).length := by
      rw [List.takeWhile_append_dropWhile]
    _ = l.dropWhile p := List.drop_left

/-- What stands in front of the first end of a line does not depend on what follows it. -/
theorem takeWhile_append_of_mem (hline : '\n' ∈ cs) (rest : List Char) :
    (cs ++ rest).takeWhile (· ≠ '\n') = cs.takeWhile (· ≠ '\n') := by
  refine (List.takeWhile_append ..).trans (if_neg fun hlength => ?_)
  have hself := (List.takeWhile_prefix _).eq_of_length hlength
  exact of_decide_eq_true (List.takeWhile_eq_self_iff.1 hself '\n' hline) rfl

end Nesting

open Nesting

/-- The check skips a text up to the first end of a line in it, and through its closing quote when
    it has none. -/
theorem Quoted.quotedLength_append (hbody : Quoted quote body) (hquote : IsQuote quote)
    (rest : List Char) : quotedLength quote (body ++ quote :: rest) =
      ((body ++ [quote]).takeWhile (· ≠ '\n')).length := by
  induction hbody with
  | nil => rw [List.nil_append, quotedLength.eq_def]; simp [hquote.ne_newline]
  | @escape d body hbody ih =>
    rw [List.cons_append, List.cons_append, quotedLength.eq_def]
    by_cases hd : d = '\n'
    · simp [hquote.ne_backslash.symm, hd]
    · simp [hquote.ne_backslash.symm, hd, ih]
      omega
  | @plain c body hne hbackslash hline hbody ih =>
    have hnewline : c ≠ '\n' := by
      rintro rfl
      exact Bool.noConfusion hline
    rw [List.cons_append, quotedLength.eq_def]
    simp [hne, hbackslash, hnewline, ih]
    omega

/-- The check skips a text that stands on one line as a whole. -/
theorem Quoted.quotedLength_of_notMem (hbody : Quoted quote body) (hquote : IsQuote quote)
    (hline : '\n' ∉ body) (rest : List Char) :
    quotedLength quote (body ++ quote :: rest) = body.length + 1 := by
  rw [hbody.quotedLength_append hquote, List.takeWhile_eq_self_iff.2, List.length_append,
    List.length_singleton]
  intro c hc
  rcases List.mem_append.1 hc with hc | hc
  · exact decide_eq_true (ne_of_mem_of_not_mem hc hline)
  · exact decide_eq_true (List.mem_singleton.1 hc ▸ hquote.ne_newline)

/-- The check stops in front of the first end of a line in a text. -/
theorem Quoted.quotedLength_of_mem (hbody : Quoted quote body) (hquote : IsQuote quote)
    (hline : '\n' ∈ body) (rest : List Char) :
    quotedLength quote (body ++ quote :: rest) = (body.takeWhile (· ≠ '\n')).length := by
  rw [hbody.quotedLength_append hquote, takeWhile_append_of_mem hline]

/-- A quote ends a run of prefix operators, and the check goes on where it takes the text to be
    over. -/
theorem excessFrom_quote (hquote : IsQuote quote) (limit line : Nat) (depth : Depth)
    (rest : List Char) : excessFrom limit 0 depth line (quote :: rest) =
      if depth.brackets > limit then some (Line.ofCount line)
      else excessFrom limit 0 ⟨depth.brackets, 0⟩ line (rest.drop (quotedLength quote rest)) := by
  have hstep : step depth quote rest = (⟨depth.brackets, 0⟩, quotedLength quote rest) := by
    rcases hquote with rfl | rfl <;> rfl
  rw [excessFrom, hstep, ← excessFrom_eq_drop]
  simp [hquote.ne_newline]

/-- A text in quotes is one token, whatever follows it. The check of the nesting skips all of it
    and nothing more just when no end of a line stands in it: it then counts nothing in the text
    and goes on right behind it. In a text that has one the check goes on at the first of them. -/
theorem Quoted.skipped_iff (hbody : Quoted quote body) (hquote : IsQuote quote)
    (rest : List Char) :
    pieceAt quote (body ++ quote :: rest) = (some (.text body), body.length + 2) ∧
    (quotedLength quote (body ++ quote :: rest) = body.length + 1 ↔ '\n' ∉ body) ∧
    ∀ limit depth line, excessFrom limit 0 depth line (quote :: (body ++ quote :: rest)) =
      if depth.brackets > limit then some (Line.ofCount line)
      else excessFrom limit 0 ⟨depth.brackets, 0⟩ line
        (if '\n' ∈ body then (body ++ quote :: rest).dropWhile (· ≠ '\n') else rest) := by
  refine ⟨?_, ?_, fun limit depth line => ?_⟩
  · have hscan := hbody.quotedBody?_append hquote rest
    rcases hquote with rfl | rfl <;> simp [pieceAt, hscan, isWordStart]
  · constructor
    · intro hlength hline
      have hle : (body.takeWhile (· ≠ '\n')).length ≤ body.length :=
        (List.takeWhile_sublist _).length_le
      -- A skip that stops at the line feed is shorter than the body.
      rw [hbody.quotedLength_of_mem hquote hline] at hlength
      omega
    · intro hline
      exact hbody.quotedLength_of_notMem hquote hline rest
  · rw [excessFrom_quote hquote]
    by_cases hline : '\n' ∈ body
    · rw [hbody.quotedLength_of_mem hquote hline, if_pos hline,
        ← takeWhile_append_of_mem hline (quote :: rest), drop_length_takeWhile]
    · rw [hbody.quotedLength_of_notMem hquote hline, if_neg hline, ← List.drop_drop,
        List.drop_left, List.drop_succ_cons, List.drop_zero]

/-- The check skips a text with brackets and an escaped quote in it. -/
theorem Quoted.skipped_iff_bracket : IsQuote '"' ∧ Quoted '"' ['[', '\\', '"', '('] ∧
    pieceAt '"' ['[', '\\', '"', '(', '"', ')'] = (some (.text ['[', '\\', '"', '(']), 6) ∧
    quotedLength '"' ['[', '\\', '"', '(', '"', ')'] = 5 ∧
    ∀ limit line, excessFrom limit 0 ⟨0, 2⟩ line ['"', '[', '\\', '"', '(', '"', ')'] =
      excessFrom limit 0 ⟨0, 0⟩ line [')'] := by
  have hquote : IsQuote '"' := .inl rfl
  have hbody : Quoted '"' ['[', '\\', '"', '('] :=
    .plain (by decide) (by decide) rfl (.escape (.plain (by decide) (by decide) rfl .nil))
  obtain ⟨hpiece, hlength, hafter⟩ := hbody.skipped_iff hquote [')']
  exact ⟨hquote, hbody, hpiece, hlength.2 (by decide), fun limit line => hafter limit ⟨0, 2⟩ line⟩

/-- A backslash takes the end of a line into a text. The check leaves the text there and counts
    the brackets behind it. -/
theorem quotedLength_of_backslash_newline :
    quotedBody? '"' ['\\', '\n', '[', '[', '"'] = some ['\\', '\n', '[', '['] ∧
    quotedLength '"' ['\\', '\n', '[', '[', '"'] = 1 ∧
    excessFrom 1 0 ⟨0, 0⟩ 1 ['"', '\\', '\n', '[', '[', '"'] = some 2 := by
  decide

end Linewise.Syntax
