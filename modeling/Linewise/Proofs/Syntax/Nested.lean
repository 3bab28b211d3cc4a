import Mathlib
import Linewise.Proofs.Syntax.Fit
import Linewise.Proofs.Syntax.Parse

/-!
# Nested programs

The program that a tidy text spells nests within the limit that the text was checked against
(`Program.partsFit_of_parse`): turning digits into integers leaves the tree as it is, and folding
the signs of numbers into them only takes prefix operators away.
-/

namespace Linewise

variable {limit depth : Nat} {layer : Layer}

/-! ## Integers and signs -/

namespace Expr

/-- A sign that is folded takes up no more room than it took up before. -/
theorem Fits.negate {e : Expr Int64} {signs : Nat} (h : e.Fits limit depth (.negation signs)) :
    e.negate.Fits limit depth (.negation (signs + 1)) := by
  cases e with
  | int n | float x => exact .atom h.depth_le rfl
  | _ => exact .neg h

/-- What is read as an atom is one when it has been resolved and folded. -/
theorem isAtom_fold_of_resolve {e : Expr Digits} {resolved : Expr Int64} (he : e.isAtom = true)
    (h : e.resolve = .ok resolved) : resolved.fold.isAtom = true := by
  cases e with
  | int digits =>
    obtain ⟨n, -, h⟩ := Except.bind_eq_ok_iff.1 h
    cases h
    rfl
  | float _ | str _ | bool _ | none | ident _ =>
    cases h
    rfl
  | _ => cases he

/-- What becomes of each item of a list holds of all items of what the list becomes. -/
theorem forall_foldItems_of_resolveItems {items : List (Expr Digits)}
    {resolved : List (Expr Int64)} {P : Expr Int64 → Prop}
    (hitems : ∀ item ∈ items, ∀ {r}, item.resolve = .ok r → P r.fold)
    (h : resolveItems items = .ok resolved) : ∀ item ∈ foldItems resolved, P item := by
  induction items generalizing resolved with
  | nil =>
    cases h
    exact nofun
  | cons item rest ih =>
    obtain ⟨hitem, hrest⟩ := List.forall_mem_cons.1 hitems
    obtain ⟨r, hr, h⟩ := Except.bind_eq_ok_iff.1 h
    obtain ⟨rs, hrs, h⟩ := Except.bind_eq_ok_iff.1 h
    cases h
    exact List.forall_mem_cons.2 ⟨hitem hr, ih hrest hrs⟩

/-- An expression of a program fits as the tree does that it comes from. -/
theorem Fits.fold {e : Expr Digits} {resolved : Expr Int64} (he : e.Fits limit depth layer)
    (h : e.resolve = .ok resolved) : resolved.fold.Fits limit depth layer := by
  induction he generalizing resolved with
  | atom hdepth hatom => exact .atom hdepth (isAtom_fold_of_resolve hatom h)
  | list hdepth _ ih =>
    obtain ⟨items, hitems, h⟩ := Except.bind_eq_ok_iff.1 h
    cases h
    exact .list hdepth (forall_foldItems_of_resolveItems ih hitems)
  | parens _ ih => exact .parens (ih h)
  | subscript _ _ ihobject ihindex =>
    obtain ⟨object, hobject, h⟩ := Except.bind_eq_ok_iff.1 h
    obtain ⟨index, hindex, h⟩ := Except.bind_eq_ok_iff.1 h
    cases h
    exact .subscript (ihobject hobject) (ihindex hindex)
  | call hdepth _ _ ihcallee ihargs =>
    obtain ⟨callee, hcallee, h⟩ := Except.bind_eq_ok_iff.1 h
    obtain ⟨args, hargs, h⟩ := Except.bind_eq_ok_iff.1 h
    cases h
    exact .call hdepth (ihcallee hcallee) (forall_foldItems_of_resolveItems ihargs hargs)
  | neg _ ih =>
    obtain ⟨operand, hoperand, h⟩ := Except.bind_eq_ok_iff.1 h
    cases h
    -- A folded minus either stays or turns its operand into an atom.
    exact (ih hoperand).negate
  | not _ ih =>
    obtain ⟨operand, hoperand, h⟩ := Except.bind_eq_ok_iff.1 h
    cases h
    exact .not (ih hoperand)
  | binary _ _ hrun hrank ihleft ihright =>
    obtain ⟨left, hleft, h⟩ := Except.bind_eq_ok_iff.1 h
    obtain ⟨right, hright, h⟩ := Except.bind_eq_ok_iff.1 h
    cases h
    exact .binary (ihleft hleft) (ihright hright) hrun hrank
  | logic _ _ hrun hrank ihleft ihright =>
    obtain ⟨left, hleft, h⟩ := Except.bind_eq_ok_iff.1 h
    obtain ⟨right, hright, h⟩ := Except.bind_eq_ok_iff.1 h
    cases h
    exact .logic (ihleft hleft) (ihright hright) hrun hrank
  | lift _ hrun hrank ih => exact .lift (ih h) hrun hrank

end Expr

mutual

/-- The parts of a statement fit the depth that they stand at also when its signs have been
    folded. -/
theorem Stmt.partsFit_fold : ∀ {stmt : Stmt Digits} {resolved : Stmt Int64} {depth : Nat},
    PartsFit limit (stmt.parts depth) → stmt.resolve = .ok resolved →
      PartsFit limit (resolved.fold.parts depth)
  | .expr .., _, _, hfits, h | .assign .., _, _, hfits, h | .leave _ (some _), _, _, hfits, h => by
    obtain ⟨value, hvalue, h⟩ := Except.bind_eq_ok_iff.1 h
    cases h
    obtain ⟨hdepth, hfits⟩ := partsFit_cons.1 hfits
    obtain ⟨he, -⟩ := partsFit_cons.1 hfits
    exact partsFit_cons.2 ⟨hdepth, partsFit_cons.2 ⟨he.fold hvalue, partsFit_nil⟩⟩
  | .assignItem .., _, _, hfits, h => by
    obtain ⟨value, hvalue, h⟩ := Except.bind_eq_ok_iff.1 h
    obtain ⟨index, hindex, h⟩ := Except.bind_eq_ok_iff.1 h
    cases h
    obtain ⟨hdepth, hfits⟩ := partsFit_cons.1 hfits
    obtain ⟨he, hfits⟩ := partsFit_cons.1 hfits
    obtain ⟨he', -⟩ := partsFit_cons.1 hfits
    -- The value is resolved first, though it stands behind the index.
    exact partsFit_cons.2 ⟨hdepth, partsFit_cons.2 ⟨he.fold hindex,
      partsFit_cons.2 ⟨he'.fold hvalue, partsFit_nil⟩⟩⟩
  | .branch .., _, _, hfits, h => by
    obtain ⟨test, htest, h⟩ := Except.bind_eq_ok_iff.1 h
    obtain ⟨body, hbody, h⟩ := Except.bind_eq_ok_iff.1 h
    obtain ⟨rest, hrest, h⟩ := Except.bind_eq_ok_iff.1 h
    cases h
    obtain ⟨hdepth, hfits⟩ := partsFit_cons.1 hfits
    obtain ⟨he, hfits⟩ := partsFit_cons.1 hfits
    obtain ⟨hinner, houter⟩ := partsFit_append.1 hfits
    exact partsFit_cons.2 ⟨hdepth, partsFit_cons.2 ⟨he.fold htest, partsFit_append.2
      ⟨Stmt.partsFit_foldBody hinner hbody, Otherwise.partsFit_fold houter hrest⟩⟩⟩
  | .whileLoop .., _, _, hfits, h | .forLoop .., _, _, hfits, h => by
    obtain ⟨test, htest, h⟩ := Except.bind_eq_ok_iff.1 h
    obtain ⟨body, hbody, h⟩ := Except.bind_eq_ok_iff.1 h
    cases h
    obtain ⟨hdepth, hfits⟩ := partsFit_cons.1 hfits
    obtain ⟨he, hinner⟩ := partsFit_cons.1 hfits
    exact partsFit_cons.2 ⟨hdepth, partsFit_cons.2 ⟨he.fold htest,
      Stmt.partsFit_foldBody hinner hbody⟩⟩
  | .define .., _, _, hfits, h => by
    obtain ⟨_, -, h⟩ := Except.bind_eq_ok_iff.1 h
    obtain ⟨body, hbody, h⟩ := Except.bind_eq_ok_iff.1 h
    cases h
    obtain ⟨hdepth, hinner⟩ := partsFit_cons.1 hfits
    exact partsFit_cons.2 ⟨hdepth, Stmt.partsFit_foldBody hinner hbody⟩
  | .leave _ none, _, _, hfits, h | .breakLoop _, _, _, hfits, h | .continueLoop _, _, _, hfits, h
  | .pass _, _, _, hfits, h => by
    cases h
    exact partsFit_cons.2 ⟨(partsFit_cons.1 hfits).1, partsFit_nil⟩

/-- The parts of what a conditional goes on with fit the depth that they stand at also when its
    signs have been folded. -/
theorem Otherwise.partsFit_fold : ∀ {otherwise : Otherwise Digits} {resolved : Otherwise Int64}
    {depth : Nat}, PartsFit limit (otherwise.parts depth) → otherwise.resolve = .ok resolved →
      PartsFit limit (resolved.fold.parts depth)
  | .nothing, _, _, _, h => by
    cases h
    exact partsFit_nil
  | .body .., _, _, hfits, h => by
    obtain ⟨body, hbody, h⟩ := Except.bind_eq_ok_iff.1 h
    cases h
    exact Stmt.partsFit_foldBody hfits hbody
  | .arm .., _, _, hfits, h => by
    obtain ⟨test, htest, h⟩ := Except.bind_eq_ok_iff.1 h
    obtain ⟨body, hbody, h⟩ := Except.bind_eq_ok_iff.1 h
    obtain ⟨rest, hrest, h⟩ := Except.bind_eq_ok_iff.1 h
    cases h
    obtain ⟨he, hfits⟩ := partsFit_cons.1 hfits
    obtain ⟨hinner, houter⟩ := partsFit_append.1 hfits
    exact partsFit_cons.2 ⟨he.fold htest, partsFit_append.2
      ⟨Stmt.partsFit_foldBody hinner hbody, Otherwise.partsFit_fold houter hrest⟩⟩

/-- The parts of statements fit the depth that they stand at also when their signs have been
    folded. -/
theorem Stmt.partsFit_foldBody : ∀ {stmts : List (Stmt Digits)} {resolved : List (Stmt Int64)}
    {depth : Nat}, PartsFit limit (Stmt.partsOf depth stmts) →
      Stmt.resolveBody stmts = .ok resolved →
        PartsFit limit (Stmt.partsOf depth (Stmt.foldBody resolved))
  | [], _, _, _, h => by
    cases h
    exact partsFit_nil
  | _ :: _, _, _, hfits, h => by
    obtain ⟨stmt, hstmt, h⟩ := Except.bind_eq_ok_iff.1 h
    obtain ⟨rest, hrest, h⟩ := Except.bind_eq_ok_iff.1 h
    cases h
    obtain ⟨hfirst, hfits⟩ := partsFit_append.1 hfits
    exact partsFit_append.2
      ⟨Stmt.partsFit_fold hfirst hstmt, Stmt.partsFit_foldBody hfits hrest⟩

end

/-! ## Programs -/

namespace Program

variable {source : String} {program : Program}

/-- The program that a tidy text spells nests within the limit that the text was checked against. -/
theorem partsFit_of_parse (h : parse limit source = .ok program) (htidy : Syntax.Tidy source) :
    PartsFit limit (Stmt.partsOf 0 program) := by
  obtain ⟨tree, resolved, rest, reach, hexcess, hscript, hresolve, rfl⟩ := exists_script_of_parse h
  have hstays := Syntax.Nesting.staysWithin_of_excess? hexcess htidy
  refine Stmt.partsFit_foldBody (Syntax.Grammar.script_fits ?_ hscript) hresolve
  rwa [List.map_map]

/-- No part of a program that a tidy text spells lies in more brackets than the limit. -/
theorem depths_le_of_parse (h : parse limit source = .ok program) (htidy : Syntax.Tidy source) :
    ∀ depth ∈ Stmt.depthsOf program, depth ≤ limit :=
  (partsFit_of_parse h htidy).depths_le

/-- Brackets in quotes and in comments count for nothing; those around the number reach the
    limit. -/
theorem depths_le_of_parse_quoted : ∃ program,
    parse 3 "s = \"\\\"[[[\" # (((\r\nif s \x7b print([1]) \x7d" = .ok program ∧
      Syntax.Tidy "s = \"\\\"[[[\" # (((\r\nif s \x7b print([1]) \x7d" ∧
      3 ∈ Stmt.depthsOf program ∧ ∀ depth ∈ Stmt.depthsOf program, depth ≤ 3 := by
  have htidy : Syntax.Tidy "s = \"\\\"[[[\" # (((\r\nif s \x7b print([1]) \x7d" := by cbv
  have hparse : parse 3 "s = \"\\\"[[[\" # (((\r\nif s \x7b print([1]) \x7d" =
      .ok [.assign 1 "s" (.str "\"[[["), .branch 2 (.ident "s")
        [.expr 2 (.call (.ident "print") [.list [.int 1]])] .nothing] := by cbv
  exact ⟨_, hparse, htidy, by decide, depths_le_of_parse hparse htidy⟩

/-- Brackets hide from the check behind a carriage return that ends a comment inside of a line, and
    behind a text that goes on in the next line. -/
theorem mem_depths_of_parse_untidy :
    (∃ program, parse 1 "#\r[[[[1]]]]" = .ok program ∧ 4 ∈ Stmt.depthsOf program) ∧
      ∃ program, parse 1 "\"\\\n\" + [[[[1]]]]" = .ok program ∧ 4 ∈ Stmt.depthsOf program :=
  ⟨⟨[.expr 1 (.list [.list [.list [.list [.int 1]]]])], by cbv, by decide⟩,
    [.expr 1 (.binary .add (.str "\n") (.list [.list [.list [.list [.int 1]]]]))],
    by cbv, by decide⟩

/-- How high the trees are that a tidy text spells depends on the limit and on their chains of
    operators. Without chains it depends on the limit alone. -/
theorem height_le_of_parse (h : parse limit source = .ok program) (htidy : Syntax.Tidy source) :
    ∀ e ∈ Stmt.exprsOf program, e.height ≤ (limit + 1) * (limit + 6 * e.longestChain + 1) ∧
      (e.longestChain ≤ 1 → e.height ≤ (limit + 1) * (limit + 10)) := by
  intro e he
  have hheight := (partsFit_of_parse h htidy).height_le e he
  exact ⟨hheight, fun hchain =>
    Nat.le_trans hheight (Nat.mul_le_mul_left (limit + 1) (by omega))⟩

/-- The bound, for a call of a call and a folded sign. -/
theorem height_le_of_parse_calls : ∃ program,
    parse 2 "a = -x * 2 + f([1])(2)" = .ok program ∧ Syntax.Tidy "a = -x * 2 + f([1])(2)" ∧
      ∀ e ∈ Stmt.exprsOf program, e.height ≤ (2 + 1) * (2 + 6 * e.longestChain + 1) ∧
        (e.longestChain ≤ 1 → e.height ≤ (2 + 1) * (2 + 10)) := by
  have htidy : Syntax.Tidy "a = -x * 2 + f([1])(2)" := by cbv
  have hparse : parse 2 "a = -x * 2 + f([1])(2)" = .ok [.assign 1 "a"
      (.binary .add (.binary .mul (.unary .neg (.ident "x")) (.int 2))
        (.call (.call (.ident "f") [.list [.int 1]]) [.int 2]))] := by cbv
  exact ⟨_, hparse, htidy, height_le_of_parse hparse htidy⟩

/-- A sum of ones, with `n` operators. -/
def onesSum : Nat → Expr Int64
  | 0 => .int 1
  | n + 1 => .binary .add (onesSum n) (.int 1)

/-- A chain of operators goes as deep as it is long, and no bracket has to be open for it. -/
theorem exists_height_of_parse : ∃ program,
    parse 1 "1+1+1+1+1+1+1+1+1+1+1+1+1+1+1+1+1+1+1+1+1+1+1" = .ok program ∧
      ∃ e ∈ Stmt.exprsOf program, (1 + 1) * (1 + 10) < e.height := by
  have hparse : parse 1 "1+1+1+1+1+1+1+1+1+1+1+1+1+1+1+1+1+1+1+1+1+1+1" =
      .ok [.expr 1 (onesSum 22)] := by cbv
  exact ⟨_, hparse, onesSum 22, List.mem_singleton_self _, by decide⟩

end Program

end Linewise
