import Linewise.Proofs.Code.Layout
import Linewise.Proofs.Syntax.Grammar
import Linewise.Proofs.Syntax.Scan
import Linewise.Syntax.Parse

/-!
# Parsed programs

A program that was read from a text and has a code is legal (`Program.isLegal_of_parse`), and its
lines ascend if the text has fewer than `2 ^ 32` of them (`Program.ascending_of_parse`). What is
noted of its tree is noted of the lexemes of the text; integers and signs are none of it
(`Stmt.marksOf_resolveBody`, `Stmt.marksOf_foldBody`).
-/

namespace Linewise

/-- A sequence of two computations has a value when both have. -/
theorem Except.bind_eq_ok_iff {ε α β : Type} {x : Except ε α} {f : α → Except ε β} {b : β} :
    (x >>= f) = .ok b ↔ ∃ a, x = .ok a ∧ f a = .ok b := by
  cases x with
  | ok a => exact ⟨fun h => ⟨a, rfl, h⟩, fun ⟨_, h, hb⟩ => by cases h; exact hb⟩
  | error e => exact ⟨nofun, fun ⟨_, h, _⟩ => nomatch h⟩

section Marks

variable {β : Type} {ofLine : Line → List β} {ofName : String → List β}

mutual

/-- Resolving a statement keeps its marks, which are the lines and the names in it. -/
theorem Stmt.marks_resolve : ∀ {stmt : Stmt Digits} {resolved : Stmt Int64},
    stmt.resolve = .ok resolved → resolved.marks ofLine ofName = stmt.marks ofLine ofName
  | .expr .., _, h | .assign .., _, h | .leave _ (some _), _, h => by
    obtain ⟨_, -, h⟩ := Except.bind_eq_ok_iff.1 h
    cases h
    rfl
  | .assignItem .., _, h => by
    obtain ⟨_, -, h⟩ := Except.bind_eq_ok_iff.1 h
    obtain ⟨_, -, h⟩ := Except.bind_eq_ok_iff.1 h
    cases h
    rfl
  | .branch .., _, h => by
    obtain ⟨_, -, h⟩ := Except.bind_eq_ok_iff.1 h
    obtain ⟨_, hbody, h⟩ := Except.bind_eq_ok_iff.1 h
    obtain ⟨_, hotherwise, h⟩ := Except.bind_eq_ok_iff.1 h
    cases h
    rw [Stmt.marks, Stmt.marksOf_resolveBody hbody, Otherwise.marks_resolve hotherwise, Stmt.marks]
  | .whileLoop .., _, h | .forLoop .., _, h => by
    obtain ⟨_, -, h⟩ := Except.bind_eq_ok_iff.1 h
    obtain ⟨_, hbody, h⟩ := Except.bind_eq_ok_iff.1 h
    cases h
    rw [Stmt.marks, Stmt.marksOf_resolveBody hbody, Stmt.marks]
  | .define .., _, h => by
    obtain ⟨_, -, h⟩ := Except.bind_eq_ok_iff.1 h
    obtain ⟨_, hbody, h⟩ := Except.bind_eq_ok_iff.1 h
    cases h
    rw [Stmt.marks, Stmt.marksOf_resolveBody hbody, Stmt.marks]
  | .leave _ none, _, h | .breakLoop _, _, h | .continueLoop _, _, h | .pass _, _, h => by
    cases h
    rfl

/-- Resolving what a conditional goes on with keeps its marks. -/
theorem Otherwise.marks_resolve : ∀ {otherwise : Otherwise Digits} {resolved : Otherwise Int64},
    otherwise.resolve = .ok resolved →
      resolved.marks ofLine ofName = otherwise.marks ofLine ofName
  | .nothing, _, h => by
    cases h
    rfl
  | .body .., _, h => by
    obtain ⟨_, hbody, h⟩ := Except.bind_eq_ok_iff.1 h
    cases h
    rw [Otherwise.marks, Stmt.marksOf_resolveBody hbody, Otherwise.marks]
  | .arm .., _, h => by
    obtain ⟨_, -, h⟩ := Except.bind_eq_ok_iff.1 h
    obtain ⟨_, hbody, h⟩ := Except.bind_eq_ok_iff.1 h
    obtain ⟨_, hotherwise, h⟩ := Except.bind_eq_ok_iff.1 h
    cases h
    rw [Otherwise.marks, Stmt.marksOf_resolveBody hbody, Otherwise.marks_resolve hotherwise,
      Otherwise.marks]

/-- Resolving statements keeps their marks. -/
theorem Stmt.marksOf_resolveBody : ∀ {stmts : List (Stmt Digits)} {resolved : List (Stmt Int64)},
    Stmt.resolveBody stmts = .ok resolved →
      Stmt.marksOf ofLine ofName resolved = Stmt.marksOf ofLine ofName stmts
  | [], _, h => by
    cases h
    rfl
  | _ :: _, _, h => by
    obtain ⟨_, hstmt, h⟩ := Except.bind_eq_ok_iff.1 h
    obtain ⟨_, hrest, h⟩ := Except.bind_eq_ok_iff.1 h
    cases h
    rw [Stmt.marksOf, Stmt.marks_resolve hstmt, Stmt.marksOf_resolveBody hrest, Stmt.marksOf]

end

mutual

/-- Folding the signs of a statement keeps its marks. -/
theorem Stmt.marks_fold : ∀ stmt : Stmt Int64,
    stmt.fold.marks ofLine ofName = stmt.marks ofLine ofName
  | .branch _ _ body otherwise => by
    rw [Stmt.fold, Stmt.marks, Stmt.marksOf_foldBody body, Otherwise.marks_fold otherwise,
      Stmt.marks]
  | .whileLoop _ _ body | .forLoop _ _ _ body | .define _ _ _ body _ => by
    rw [Stmt.fold, Stmt.marks, Stmt.marksOf_foldBody body, Stmt.marks]
  | .expr .. | .assign .. | .assignItem .. | .leave .. | .breakLoop _ | .continueLoop _
  | .pass _ => rfl

theorem Otherwise.marks_fold : ∀ otherwise : Otherwise Int64,
    otherwise.fold.marks ofLine ofName = otherwise.marks ofLine ofName
  | .nothing => rfl
  | .body body => by
    rw [Otherwise.fold, Otherwise.marks, Stmt.marksOf_foldBody body, Otherwise.marks]
  | .arm _ _ body otherwise => by
    rw [Otherwise.fold, Otherwise.marks, Stmt.marksOf_foldBody body,
      Otherwise.marks_fold otherwise, Otherwise.marks]

theorem Stmt.marksOf_foldBody : ∀ stmts : List (Stmt Int64),
    Stmt.marksOf ofLine ofName (Stmt.foldBody stmts) = Stmt.marksOf ofLine ofName stmts
  | [] => rfl
  | stmt :: rest => by
    rw [Stmt.foldBody, Stmt.marksOf, Stmt.marks_fold stmt, Stmt.marksOf_foldBody rest, Stmt.marksOf]

end

end Marks

namespace Program

variable {limit : Nat} {source : String} {program : Program} {code : Code}

/-- A text that spells a program has passed every stage: the check of its nesting, the grammar and
    the look at the parts of its tree. -/
theorem exists_script_of_unfolded (h : unfolded limit source = .ok program) :
    ∃ tree rest reach, Syntax.Nesting.excess? limit source = none ∧
      Syntax.Grammar.script (Syntax.scan source).length ((Syntax.scan source).map Prod.fst) 0 =
        (some (tree, rest), reach) ∧
      Stmt.resolveBody tree = .ok program := by
  rw [unfolded] at h
  split at h
  · cases h
  next hexcess =>
  split at h
  · cases h
  next htree =>
  split at h
  · cases h
  next hresolve =>
  cases h
  unfold tree at htree
  dsimp only at htree
  split at htree
  next hscript =>
    cases htree
    exact ⟨_, _, _, hexcess, hscript, hresolve⟩
  · split at htree <;> cases htree

/-- Signs are folded at last. -/
theorem exists_unfolded_of_parse (h : parse limit source = .ok program) :
    ∃ plain, unfolded limit source = .ok plain ∧ program = Stmt.foldBody plain := by
  rw [parse] at h
  cases hplain : unfolded limit source with
  | error fault => rw [hplain] at h; cases h
  | ok plain => rw [hplain] at h; cases h; exact ⟨plain, rfl, rfl⟩

/-- A program has come out of all stages: the check of the nesting, the grammar and the resolving of
    numbers and names. -/
theorem exists_script_of_parse (h : parse limit source = .ok program) :
    ∃ tree resolved rest reach, Syntax.Nesting.excess? limit source = none ∧
      Syntax.Grammar.script (Syntax.scan source).length ((Syntax.scan source).map Prod.fst) 0 =
        (some (tree, rest), reach) ∧
      Stmt.resolveBody tree = .ok resolved ∧ program = Stmt.foldBody resolved := by
  obtain ⟨resolved, hplain, rfl⟩ := exists_unfolded_of_parse h
  obtain ⟨tree, rest, reach, hexcess, hscript, hresolve⟩ := exists_script_of_unfolded hplain
  exact ⟨tree, resolved, rest, reach, hexcess, hscript, hresolve, rfl⟩

/-- What is noted of a program that was read from a text is noted of the lexemes of the text. -/
theorem marks_sublist_of_parse {β : Type} (ofLine : Line → List β) (ofName : String → List β)
    (h : parse limit source = .ok program) :
    (Stmt.marksOf ofLine ofName program).Sublist
      (((Syntax.scan source).map Prod.fst).flatMap
        (Syntax.Grammar.marksAt ofLine ofName)) := by
  obtain ⟨tree, resolved, rest, reach, -, hscript, hresolve, rfl⟩ := exists_script_of_parse h
  rw [Stmt.marksOf_foldBody, Stmt.marksOf_resolveBody hresolve]
  exact Syntax.Grammar.script_marks hscript

/-- The lines of a program are lines of the text, in their order. -/
theorem lines_sublist_of_parse (h : parse limit source = .ok program) :
    (Stmt.linesOf program).Sublist ((Syntax.scan source).map fun entry => entry.1.line) := by
  have hline : Syntax.Grammar.marksAt (fun line => [line]) (fun _ => []) =
      fun lexeme => [lexeme.line] := by
    funext lexeme
    rw [Syntax.Grammar.marksAt]
    split <;> rfl
  have hsublist := marks_sublist_of_parse (fun line => [line]) (fun _ => []) h
  rwa [hline, List.flatMap_map, ← List.map_eq_flatMap] at hsublist

/-- The names of the definitions of a program are names of the text. -/
theorem exists_ident_of_parse (h : parse limit source = .ok program) {name : String}
    (hname : name ∈ Stmt.namesOf program) :
    ∃ entry ∈ Syntax.scan source, entry.1.token = .ident name := by
  have hmem := (marks_sublist_of_parse (fun _ => []) (fun name => [name]) h).subset hname
  rw [List.flatMap_map, List.mem_flatMap] at hmem
  obtain ⟨entry, hentry, hmark⟩ := hmem
  refine ⟨entry, hentry, ?_⟩
  rw [Syntax.Grammar.marksAt] at hmark
  split at hmark
  next hident =>
    rw [List.nil_append, List.mem_singleton] at hmark
    rw [hident, hmark]
  · cases hmark

/-- A program that was read from a text is legal when it has a code. -/
theorem isLegal_of_parse (hparse : parse limit source = .ok program)
    (hcompile : program.compile = .ok code) : Legal .outermost program where
  placed := (compile_eq_ok_iff.1 hcompile).1
  named := by
    intro name hname heq
    obtain ⟨entry, hentry, hident⟩ := exists_ident_of_parse hparse hname
    have hword := Syntax.isWordChar_of_mem_scanFrom hentry hident '<' (by
      rw [heq]
      decide)
    exact absurd hword (by decide)

/-- The lines of a program that was read from a text ascend when all lines of the text can be
    numbered. -/
theorem ascending_of_parse (hparse : parse limit source = .ok program)
    (hlines : Syntax.lineCount source < UInt32.size) : Ascending program := by
  have hfits : 1 + source.toList.count '\n' < UInt32.size := Nat.add_comm 1 _ ▸ hlines
  refine ⟨?_, ?_⟩
  · refine List.Pairwise.sublist (lines_sublist_of_parse hparse) ?_
    rw [List.pairwise_map]
    exact Syntax.pairwise_scanFrom _ _ hfits
  · intro line hline heq
    obtain ⟨entry, hentry, rfl⟩ :=
      List.mem_map.1 ((lines_sublist_of_parse hparse).subset hline)
    -- The text begins on line one, and no token of it stands before its beginning.
    have hle : 1 ≤ entry.1.line.toNat := Syntax.line_le_of_mem_scanFrom hfits hentry
    rw [heq] at hle
    exact absurd hle (by decide)

end Program

end Linewise
