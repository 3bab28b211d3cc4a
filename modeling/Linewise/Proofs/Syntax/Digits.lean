import Mathlib
import Linewise.Proofs.Syntax.Grammar
import Linewise.Proofs.Syntax.Integers
import Linewise.Proofs.Syntax.Parse

/-!
# Digits in scripts

An integer of a script is written in digits, and in nothing else. This is so for every token that
is scanned (`Syntax.isUnsigned_of_mem_scanFrom`), and so for all that the grammar reads
(`Grammar.script_spells`). The integers that digits are resolved to are not negative
(`Program.toInt_nonneg_of_unfolded`).
-/

namespace Linewise

/-- There are digits only, without a sign in front of them. -/
def IsUnsigned (text : String) : Prop := ∀ c ∈ text.toList, c.isDigit = true

/-- All integers in the expression are written without a sign. -/
def Expr.IsUnsigned (e : Expr Digits) : Prop :=
  ∀ digits, .int digits ∈ e.nodes → Linewise.IsUnsigned digits.text

namespace Syntax

/-! ## Scanning -/

variable {skip index : Nat} {place : Place} {cs : List Char} {entry : Lexeme × Nat}

/-- A whole number is scanned from digits alone. -/
theorem isUnsigned_of_pieceAt {c : Char} {rest : List Char} {digits : String}
    (h : (pieceAt c rest).1 = some (.int digits)) : IsUnsigned digits := by
  have hword : (wordAt (c :: rest)).1 ≠ .int digits := by
    rw [wordAt]
    dsimp only
    split <;> simp
  -- Only a piece that begins with a digit is a number.
  rw [pieceAt] at h
  split at h
  · cases h
  split at h
  · cases h
  split at h
  · cases h
  split at h
  · exact absurd (Option.some.inj h) hword
  split at h
  · have hnumber : (numberAt (c :: rest)).1 = .int digits := Option.some.inj h
    have hwhole : digits = String.ofList ((c :: rest).takeWhile Char.isDigit) := by
      rw [numberAt] at hnumber
      dsimp only at hnumber
      split at hnumber
      -- With a point and more digits behind it, the number is no whole one.
      · split at hnumber <;> cases hnumber
        rfl
      · cases hnumber
        rfl
    rw [hwhole, IsUnsigned, String.toList_ofList]
    exact List.all_eq_true.1 List.all_takeWhile
  split at h
  · split at h <;> cases h
  · split at h <;> cases h

/-- All whole numbers in a scanned text are digits alone. -/
theorem isUnsigned_of_mem_scanFrom {digits : String} (h : entry ∈ scanFrom skip place index cs)
    (hdigits : entry.1.token = .int digits) : IsUnsigned digits := by
  induction cs generalizing skip place index with
  | nil =>
    rw [scanFrom, List.mem_singleton] at h
    rw [h] at hdigits
    cases hdigits
  | cons c rest ih =>
    unfold scanFrom at h
    split at h
    · exact ih h
    · split at h
      · exact ih h
      next hpiece =>
        rcases List.mem_cons.1 h with rfl | h
        · exact isUnsigned_of_pieceAt (by rw [hpiece, ← hdigits])
        · exact ih h

/-! ## Reading -/

namespace Grammar

open Rule

variable {α : Type} {p op : Rule α} {size : Nat} {expr operand : Rule Tree}

/-- All integers among the lexemes are written without a sign. -/
def Unsigned (lexemes : List Lexeme) : Prop :=
  ∀ lexeme ∈ lexemes, ∀ digits, lexeme.token = .int digits → IsUnsigned digits

/-- What the rule reads is of some kind where integers are written without a sign. -/
abbrev Spells (p : Rule α) (V : α → Prop) : Prop := p.Gives Unsigned Unsigned V

theorem takes_spells (hp : p.Takes) : Spells p fun _ => True :=
  fun _ _ _ _ _ hl heq =>
    ⟨trivial, fun lexeme hmem => hl lexeme ((hp _ (List.suffix_refl _) heq).subset hmem)⟩

theorem consumes_spells (hp : p.Consumes) : Spells p fun _ => True := takes_spells hp.takes

theorem current_spells : Spells current fun lexeme =>
    ∀ digits, lexeme.token = .int digits → IsUnsigned digits :=
  Ensures.current fun _ _ hl => ⟨hl _ List.mem_cons_self, hl⟩

/-- An atom holds no digits unless it is a number. -/
theorem isUnsigned_of_atom {e : Tree} (hatom : e.isAtom = true)
    (h : ∀ digits, e = .int digits → Linewise.IsUnsigned digits.text) : e.IsUnsigned := by
  intro digits hmem
  cases e with
  | int _ | float _ | str _ | bool _ | none | ident _ =>
    exact h digits (List.mem_singleton.1 hmem).symm
  | _ => cases hatom

/-! ### Expressions -/

theorem isUnsigned_list {items : List Tree} (h : ∀ item ∈ items, item.IsUnsigned) :
    (.list items : Tree).IsUnsigned := by
  intro digits hmem
  obtain ⟨item, hitem, hmem⟩ := Expr.mem_nodesOf.1 ((List.mem_cons.1 hmem).resolve_left nofun)
  exact h item hitem digits hmem

theorem isUnsigned_call {callee : Tree} {args : List Tree} (hcallee : callee.IsUnsigned)
    (hargs : ∀ arg ∈ args, arg.IsUnsigned) : (.call callee args : Tree).IsUnsigned := by
  intro digits hmem
  rcases List.mem_append.1 ((List.mem_cons.1 hmem).resolve_left nofun) with hmem | hmem
  · exact hcallee digits hmem
  · obtain ⟨arg, harg, hmem⟩ := Expr.mem_nodesOf.1 hmem
    exact hargs arg harg digits hmem

theorem isUnsigned_unary {op : UnaryOp} {e : Tree} (h : e.IsUnsigned) :
    (.unary op e : Tree).IsUnsigned :=
  fun digits hmem => h digits ((List.mem_cons.1 hmem).resolve_left nofun)

/-- An expression of two parts. -/
theorem isUnsigned_pair {e left right : Tree} (hnodes : e.nodes = e :: (left.nodes ++ right.nodes))
    (hne : ∀ digits, e ≠ .int digits) (hleft : left.IsUnsigned) (hright : right.IsUnsigned) :
    e.IsUnsigned := by
  intro digits hmem
  rw [hnodes] at hmem
  rcases List.mem_append.1 ((List.mem_cons.1 hmem).resolve_left (hne digits).symm) with hmem | hmem
  · exact hleft digits hmem
  · exact hright digits hmem

section Expressions

variable (hexpr : Spells expr Expr.IsUnsigned)

include hexpr in
theorem items_spells : Spells (separated size expr) fun items => ∀ item ∈ items, item.IsUnsigned :=
  hexpr.separated (consumes_spells (.symbol _))

include hexpr in
/-- An atom, a list or an expression in parentheses holds digits alone if the expressions in it
    do. -/
theorem primary_spells : Spells (primary size expr) Expr.IsUnsigned := by
  have hatom : ∀ (t : Token) (tree : Tree), tree.IsUnsigned →
      Spells (do token t; return tree) Expr.IsUnsigned :=
    fun t tree htree => (consumes_spells (.token t)).bind fun _ _ => .pure htree
  refine .named (current_spells.bind fun lexeme hlexeme => ?_)
  split
  -- A number has the digits of its lexeme; all other atoms have none.
  case h_1 digits heq =>
    refine hatom _ _ (isUnsigned_of_atom rfl fun digits' heq' => ?_)
    cases heq'
    exact hlexeme digits heq
  case h_8 =>
    refine (consumes_spells (.symbol _)).bind fun _ _ => .bind (.optional
      ((items_spells hexpr).bind fun items hitems =>
        (takes_spells (Consumes.symbol _).takes.optional).bind fun _ _ => .pure hitems))
      fun items hitems => (consumes_spells (.symbol _)).bind fun _ _ => .pure (isUnsigned_list ?_)
    cases items with
    | none => exact nofun
    | some items => exact hitems items rfl
  case h_9 =>
    exact (consumes_spells (.symbol _)).bind fun _ _ => hexpr.bind fun inner hinner =>
      (consumes_spells (.symbol _)).bind fun _ _ => .pure hinner
  case h_10 => exact .fail
  all_goals exact hatom _ _ (isUnsigned_of_atom rfl nofun)

include hexpr in
theorem subscript_spells : Spells (subscript expr) Expr.IsUnsigned :=
  .named ((consumes_spells (.symbol _)).bind fun _ _ => hexpr.bind fun _ hindex =>
    (consumes_spells (.symbol _)).bind fun _ _ => .pure hindex)

include hexpr in
/-- A call or a subscript adds expressions that hold digits alone. -/
theorem suffix_spells : Spells (orElse (callArgs size expr) (subscripted expr)) fun apply =>
    ∀ e : Tree, e.IsUnsigned → (apply e).IsUnsigned := by
  refine .orElse (.named ?_) ?_
  · refine (consumes_spells (.symbol _)).bind fun _ _ => (items_spells hexpr).optional.bind
      fun args hargs => (consumes_spells (.symbol _)).bind fun _ _ =>
        .pure fun callee hcallee => isUnsigned_call hcallee ?_
    cases args with
    | none => exact nofun
    | some args => exact hargs args rfl
  · exact (subscript_spells hexpr).bind fun index hindex =>
      .pure fun object hobject => isUnsigned_pair rfl nofun hobject hindex

include hexpr in
theorem postfixed_spells : Spells (postfixed size expr) Expr.IsUnsigned := by
  refine (primary_spells hexpr).bind fun first hfirst => (suffix_spells hexpr).repeated.bind
    fun suffixes hsuffixes => .pure ?_
  exact List.foldlRecOn suffixes _ hfirst fun e he apply hmem => hsuffixes apply hmem e he

/-- Prefix operators add no numbers. -/
theorem prefixChain_spells {op : Rule (Tree → Tree)} {o : UnaryOp}
    (hop : Spells op (· = .unary o)) (hoperand : Spells operand Expr.IsUnsigned) :
    Spells (prefixChain size op operand) Expr.IsUnsigned := by
  refine hop.repeated.bind fun ops hops => hoperand.bind fun inner hinner => .pure ?_
  refine List.foldrRecOn ops _ hinner fun e he apply hmem => ?_
  rw [hops apply hmem]
  exact isUnsigned_unary he

theorem operator_spells (table : Symbol → Option BinaryOp) :
    Spells (operator table) fun join => ∃ op : BinaryOp, join = .binary op :=
  (consumes_spells (.read _)).bind fun op _ => .pure ⟨op, rfl⟩

/-- A chain of binary operators holds digits alone if its operands do. -/
theorem binaryChain_spells {table : Symbol → Option BinaryOp}
    (hoperand : Spells operand Expr.IsUnsigned) :
    Spells (leftChain size operand (operator table)) Expr.IsUnsigned := by
  refine .leftChain hoperand (operator_spells table) (fun _ => id) ?_
  rintro _ left right ⟨op, rfl⟩ hleft hright
  exact isUnsigned_pair rfl nofun hleft hright

theorem logicChain_spells (op : LogicOp) {k : Keyword}
    (hoperand : Spells operand Expr.IsUnsigned) :
    Spells (leftChain size operand (do keyword k; return .logic op)) Expr.IsUnsigned := by
  refine .leftChain (J := (· = .logic op)) hoperand
    ((consumes_spells (.keyword k)).bind fun _ _ => .pure rfl) (fun _ => id) ?_
  rintro _ left right rfl hleft hright
  exact isUnsigned_pair rfl nofun hleft hright

include hexpr in
theorem sum_spells : Spells (sum size expr) Expr.IsUnsigned :=
  binaryChain_spells (binaryChain_spells (prefixChain_spells
    ((consumes_spells (.symbol _)).bind fun _ _ => .pure rfl) (postfixed_spells hexpr)))

include hexpr in
/-- A comparison holds digits alone if its operands do. -/
theorem comparison_spells : Spells (comparison size expr) Expr.IsUnsigned := by
  have hrest : Spells
      (do let join ← operator comparison?; let right ← sum size expr; return (join · right))
      fun apply => ∀ left : Tree, left.IsUnsigned → (apply left).IsUnsigned := by
    refine (operator_spells _).bind fun join hjoin => (sum_spells hexpr).bind fun right hright =>
      .pure fun left hleft => ?_
    obtain ⟨op, rfl⟩ := hjoin
    exact isUnsigned_pair rfl nofun hleft hright
  refine (sum_spells hexpr).bind fun left hleft => hrest.optional.bind fun rest hrest => .pure ?_
  cases rest with
  | none => exact hleft
  | some apply => exact hrest apply rfl left hleft

include hexpr in
theorem disjunction_spells : Spells (disjunction size expr) Expr.IsUnsigned :=
  logicChain_spells .or (logicChain_spells .and (prefixChain_spells
    ((consumes_spells (.keyword _)).bind fun _ _ => .pure rfl) (comparison_spells hexpr)))

end Expressions

theorem expression_spells (size depth : Nat) : Spells (expression size depth) Expr.IsUnsigned := by
  induction depth with
  | zero => exact .fail
  | succ depth ih => exact disjunction_spells ih

/-! ### Statements -/

section Statements

variable {body : Rule (List Statement)}
  (hbody : Spells body fun statements => ∀ e ∈ Stmt.exprsOf statements, e.IsUnsigned)

include hbody in
theorem block_spells : Spells (block body) fun statements =>
    ∀ e ∈ Stmt.exprsOf statements, e.IsUnsigned :=
  .named ((consumes_spells (.symbol _)).bind fun _ _ => hbody.bind fun _ hstatements =>
    (consumes_spells (.symbol _)).bind fun _ _ => .pure hstatements)

variable (hexpr : Spells expr Expr.IsUnsigned)

include hexpr hbody in
/-- An arm of a conditional holds digits alone if its test and its body do. -/
theorem arm_spells : Spells (arm expr body) fun (_, test, statements) =>
    ∀ e ∈ test :: Stmt.exprsOf statements, e.IsUnsigned :=
  (takes_spells .current).bind fun _ _ => (consumes_spells (.keyword _)).bind fun _ _ =>
    hexpr.bind fun _ htest => (block_spells hbody).bind fun _ hstatements =>
      .pure (List.forall_mem_cons.2 ⟨htest, hstatements⟩)

include hexpr hbody in
/-- What a conditional goes on with holds digits alone if its tests and bodies do. -/
theorem otherwise_spells : Spells (otherwise size expr body) fun rest =>
    ∀ e ∈ rest.exprs, e.IsUnsigned := by
  refine (arm_spells hbody hexpr).repeated.bind fun arms harms => .bind (.optional
    ((consumes_spells (.keyword _)).bind fun _ _ => block_spells hbody)) fun last hlast => .pure ?_
  refine List.foldrRecOn arms _ (motive := fun rest : Otherwise Digits =>
    ∀ e ∈ rest.exprs, e.IsUnsigned) ?_ fun rest hrest arm harm => ?_
  · cases last with
    | none => exact nofun
    | some statements =>
      rw [Otherwise.exprs_body]
      exact hlast statements rfl
  · rw [Otherwise.exprs_arm, ← List.cons_append]
    exact List.forall_mem_append.2 ⟨harms arm harm, hrest⟩

include hexpr in
/-- An assignment holds digits alone if its expressions do. -/
theorem assignment_spells (line : Line) : Spells (assignment expr line) fun stmt =>
    ∀ e ∈ stmt.exprs, e.IsUnsigned := by
  refine (consumes_spells name_consumes).bind fun target _ => (subscript_spells hexpr).optional.bind
    fun index hindex => (consumes_spells (.symbol _)).bind fun _ _ =>
      (takes_spells .current).bind fun next _ => ?_
  split
  case h_3 =>
    refine hexpr.bind fun value hvalue => .pure ?_
    cases index with
    | none => exact List.forall_mem_singleton.2 hvalue
    | some index =>
      exact List.forall_mem_cons.2 ⟨hindex index rfl, List.forall_mem_singleton.2 hvalue⟩
  all_goals exact .fail

include hexpr hbody in
/-- A statement holds digits alone if its expressions and its body do. -/
theorem statement_spells : Spells (statement size expr body) fun stmt =>
    ∀ e ∈ stmt.exprs, e.IsUnsigned := by
  have hkeyword : ∀ k, Spells (keyword k) fun _ => True := fun k => consumes_spells (.keyword k)
  have hblock := block_spells hbody
  refine .bind .mark fun _ _ => (takes_spells .current).bind fun lexeme _ => ?_
  -- One case for each keyword that a statement may begin with, and one for all other statements.
  split
  · refine (hkeyword _).bind fun _ _ => hexpr.bind fun test htest => hblock.bind
      fun statements hstatements => (otherwise_spells hbody hexpr).bind fun rest hrest => .pure ?_
    rw [Stmt.exprs_branch]
    exact List.forall_mem_cons.2 ⟨htest, List.forall_mem_append.2 ⟨hstatements, hrest⟩⟩
  · refine (hkeyword _).bind fun _ _ => hexpr.bind fun test htest => hblock.bind
      fun statements hstatements => .pure ?_
    rw [Stmt.exprs_whileLoop]
    exact List.forall_mem_cons.2 ⟨htest, hstatements⟩
  · refine (hkeyword _).bind fun _ _ => (consumes_spells name_consumes).bind fun var _ =>
      (hkeyword _).bind fun _ _ => hexpr.bind fun iterable hiterable => hblock.bind
        fun statements hstatements => .pure ?_
    rw [Stmt.exprs_forLoop]
    exact List.forall_mem_cons.2 ⟨hiterable, hstatements⟩
  · refine (hkeyword _).bind fun _ _ => (consumes_spells name_consumes).bind fun function _ =>
      (takes_spells parameters_takes).bind fun params _ => hblock.bind
        fun statements hstatements => .pure ?_
    rw [Stmt.exprs_define]
    exact hstatements
  · refine (hkeyword _).bind fun _ _ => hexpr.optional.bind fun value hvalue => .pure ?_
    simpa using hvalue
  · exact (hkeyword _).bind fun _ _ => .pure nofun
  · exact (hkeyword _).bind fun _ _ => .pure nofun
  · exact (hkeyword _).bind fun _ _ => .pure nofun
  · exact .orElse (assignment_spells hexpr _) (hexpr.bind fun value hvalue =>
      .pure (List.forall_mem_singleton.2 hvalue))

end Statements

/-- Statements hold digits alone if each of them does. -/
theorem statements_spells {one : Rule Statement}
    (hone : Spells one fun stmt => ∀ e ∈ stmt.exprs, e.IsUnsigned) :
    Spells (statements size one) fun statements =>
      ∀ e ∈ Stmt.exprsOf statements, e.IsUnsigned := by
  have hseparator : Spells separator fun _ => True :=
    consumes_spells ((Consumes.token _).orElse (.symbol _))
  refine hseparator.repeated.bind fun _ _ => hone.optional.bind fun first hfirst => ?_
  cases first with
  | none => exact .pure nofun
  | some first =>
    have hmore : Spells (do separator; let _ ← repeated separator size; one) fun stmt =>
        ∀ e ∈ stmt.exprs, e.IsUnsigned :=
      hseparator.bind fun _ _ => hseparator.repeated.bind fun _ _ => hone
    refine hmore.repeated.bind fun rest hrest => hseparator.repeated.bind fun _ _ => .pure ?_
    have hall : ∀ stmt ∈ first :: rest, ∀ e ∈ stmt.exprs, e.IsUnsigned :=
      List.forall_mem_cons.2 ⟨hfirst first rfl, hrest⟩
    rw [Stmt.exprsOf_eq_flatMap]
    exact List.forall_mem_flatMap.2 hall

/-- A body holds digits alone, however deep it is. -/
theorem body_spells (size depth : Nat) : Spells (Grammar.body size depth) fun statements =>
    ∀ e ∈ Stmt.exprsOf statements, e.IsUnsigned := by
  induction depth with
  | zero => exact .fail
  | succ depth ih => exact statements_spells (statement_spells ih (expression_spells _ _))

/-- The integers of a script that has been read are written without a sign if those among its
    lexemes are. -/
theorem script_spells (size : Nat) : Spells (script size) fun statements =>
    ∀ e ∈ Stmt.exprsOf statements, e.IsUnsigned :=
  (body_spells size size).bind fun _ hstatements =>
    (consumes_spells (Consumes.token _).named).bind fun _ _ => .pure hstatements

end Grammar

end Syntax

/-! ## Integers of programs -/

mutual

/-- An integer is what the digits are resolved to that stand in its place. -/
theorem Expr.exists_digits_of_resolve : ∀ {e : Expr Digits} {resolved : Expr Int64} {n : Int64},
    e.resolve = .ok resolved → .int n ∈ resolved.nodes →
      ∃ digits, .int digits ∈ e.nodes ∧ digits.resolve = .ok n
  | .int digits, _, _, h, hmem => by
    obtain ⟨k, hk, h⟩ := Except.bind_eq_ok_iff.1 h
    cases h
    cases List.mem_singleton.1 hmem
    exact ⟨digits, List.mem_cons_self, hk⟩
  | .list _, _, _, h, hmem => by
    obtain ⟨items, hitems, h⟩ := Except.bind_eq_ok_iff.1 h
    cases h
    obtain ⟨digits, hdigits, hn⟩ := Expr.exists_digits_of_resolveItems hitems
      ((List.mem_cons.1 hmem).resolve_left nofun)
    exact ⟨digits, List.mem_cons_of_mem _ hdigits, hn⟩
  | .unary _ _, _, _, h, hmem => by
    obtain ⟨operand, hoperand, h⟩ := Except.bind_eq_ok_iff.1 h
    cases h
    obtain ⟨digits, hdigits, hn⟩ := Expr.exists_digits_of_resolve hoperand
      ((List.mem_cons.1 hmem).resolve_left nofun)
    exact ⟨digits, List.mem_cons_of_mem _ hdigits, hn⟩
  | .subscript _ _, _, _, h, hmem | .binary _ _ _, _, _, h, hmem | .logic _ _ _, _, _, h, hmem => by
    obtain ⟨left, hleft, h⟩ := Except.bind_eq_ok_iff.1 h
    obtain ⟨right, hright, h⟩ := Except.bind_eq_ok_iff.1 h
    cases h
    rcases List.mem_append.1 ((List.mem_cons.1 hmem).resolve_left nofun) with hmem | hmem
    · obtain ⟨digits, hdigits, hn⟩ := Expr.exists_digits_of_resolve hleft hmem
      exact ⟨digits, List.mem_cons_of_mem _ (List.mem_append_left _ hdigits), hn⟩
    · obtain ⟨digits, hdigits, hn⟩ := Expr.exists_digits_of_resolve hright hmem
      exact ⟨digits, List.mem_cons_of_mem _ (List.mem_append_right _ hdigits), hn⟩
  | .call _ _, _, _, h, hmem => by
    obtain ⟨callee, hcallee, h⟩ := Except.bind_eq_ok_iff.1 h
    obtain ⟨args, hargs, h⟩ := Except.bind_eq_ok_iff.1 h
    cases h
    rcases List.mem_append.1 ((List.mem_cons.1 hmem).resolve_left nofun) with hmem | hmem
    · obtain ⟨digits, hdigits, hn⟩ := Expr.exists_digits_of_resolve hcallee hmem
      exact ⟨digits, List.mem_cons_of_mem _ (List.mem_append_left _ hdigits), hn⟩
    · obtain ⟨digits, hdigits, hn⟩ := Expr.exists_digits_of_resolveItems hargs hmem
      exact ⟨digits, List.mem_cons_of_mem _ (List.mem_append_right _ hdigits), hn⟩
  | .float _, _, _, h, hmem | .str _, _, _, h, hmem | .bool _, _, _, h, hmem
  | .none, _, _, h, hmem | .ident _, _, _, h, hmem => by
    cases h
    cases List.mem_singleton.1 hmem

/-- An integer among the items has come from digits among them. -/
theorem Expr.exists_digits_of_resolveItems : ∀ {items : List (Expr Digits)}
    {resolved : List (Expr Int64)} {n : Int64}, Expr.resolveItems items = .ok resolved →
      .int n ∈ Expr.nodesOf resolved →
        ∃ digits, .int digits ∈ Expr.nodesOf items ∧ digits.resolve = .ok n
  | [], _, _, h, hmem => by
    cases h
    cases hmem
  | _ :: _, _, _, h, hmem => by
    obtain ⟨item, hitem, h⟩ := Except.bind_eq_ok_iff.1 h
    obtain ⟨rest, hrest, h⟩ := Except.bind_eq_ok_iff.1 h
    cases h
    rcases List.mem_append.1 hmem with hmem | hmem
    · obtain ⟨digits, hdigits, hn⟩ := Expr.exists_digits_of_resolve hitem hmem
      exact ⟨digits, List.mem_append_left _ hdigits, hn⟩
    · obtain ⟨digits, hdigits, hn⟩ := Expr.exists_digits_of_resolveItems hrest hmem
      exact ⟨digits, List.mem_append_right _ hdigits, hn⟩

end

/-- The second of two lists of expressions holds what those of the first are resolved to. -/
def ResolvesTo : List (Expr Digits) → List (Expr Int64) → Prop :=
  List.Forall₂ fun e resolved => e.resolve = .ok resolved

/-- Each resolved expression comes from one of those that were read. -/
theorem ResolvesTo.exists_of_mem {es : List (Expr Digits)} {rs : List (Expr Int64)}
    {resolved : Expr Int64} (h : ResolvesTo es rs) (hmem : resolved ∈ rs) :
    ∃ e ∈ es, e.resolve = .ok resolved := by
  induction h with
  | nil => cases hmem
  | cons hfirst _ ih =>
    rcases List.mem_cons.1 hmem with rfl | hmem
    · exact ⟨_, List.mem_cons_self, hfirst⟩
    · obtain ⟨e, he, hresolve⟩ := ih hmem
      exact ⟨e, List.mem_cons_of_mem _ he, hresolve⟩

mutual

/-- The expressions of a statement are resolved one by one. -/
theorem Stmt.resolvesTo_exprs : ∀ {stmt : Stmt Digits} {resolved : Stmt Int64},
    stmt.resolve = .ok resolved → ResolvesTo stmt.exprs resolved.exprs
  | .expr .., _, h | .assign .., _, h | .leave _ (some _), _, h => by
    obtain ⟨value, hvalue, h⟩ := Except.bind_eq_ok_iff.1 h
    cases h
    exact .cons hvalue .nil
  | .assignItem .., _, h => by
    obtain ⟨value, hvalue, h⟩ := Except.bind_eq_ok_iff.1 h
    obtain ⟨index, hindex, h⟩ := Except.bind_eq_ok_iff.1 h
    cases h
    exact .cons hindex (.cons hvalue .nil)
  | .branch .., _, h => by
    obtain ⟨test, htest, h⟩ := Except.bind_eq_ok_iff.1 h
    obtain ⟨body, hbody, h⟩ := Except.bind_eq_ok_iff.1 h
    obtain ⟨otherwise, hotherwise, h⟩ := Except.bind_eq_ok_iff.1 h
    cases h
    simp only [Stmt.exprs_branch]
    exact .cons htest (List.rel_append (Stmt.resolvesTo_exprsOf hbody)
      (Otherwise.resolvesTo_exprs hotherwise))
  | .whileLoop .., _, h | .forLoop .., _, h => by
    obtain ⟨test, htest, h⟩ := Except.bind_eq_ok_iff.1 h
    obtain ⟨body, hbody, h⟩ := Except.bind_eq_ok_iff.1 h
    cases h
    simp only [Stmt.exprs_whileLoop, Stmt.exprs_forLoop]
    exact .cons htest (Stmt.resolvesTo_exprsOf hbody)
  | .define .., _, h => by
    obtain ⟨_, -, h⟩ := Except.bind_eq_ok_iff.1 h
    obtain ⟨body, hbody, h⟩ := Except.bind_eq_ok_iff.1 h
    cases h
    simp only [Stmt.exprs_define]
    exact Stmt.resolvesTo_exprsOf hbody
  | .leave _ none, _, h | .breakLoop _, _, h | .continueLoop _, _, h | .pass _, _, h => by
    cases h
    exact .nil

/-- The expressions of what a conditional goes on with become those of its resolved form, one by
    one. -/
theorem Otherwise.resolvesTo_exprs : ∀ {otherwise : Otherwise Digits} {resolved : Otherwise Int64},
    otherwise.resolve = .ok resolved → ResolvesTo otherwise.exprs resolved.exprs
  | .nothing, _, h => by
    cases h
    exact .nil
  | .body .., _, h => by
    obtain ⟨body, hbody, h⟩ := Except.bind_eq_ok_iff.1 h
    cases h
    simp only [Otherwise.exprs_body]
    exact Stmt.resolvesTo_exprsOf hbody
  | .arm .., _, h => by
    obtain ⟨test, htest, h⟩ := Except.bind_eq_ok_iff.1 h
    obtain ⟨body, hbody, h⟩ := Except.bind_eq_ok_iff.1 h
    obtain ⟨otherwise, hotherwise, h⟩ := Except.bind_eq_ok_iff.1 h
    cases h
    simp only [Otherwise.exprs_arm]
    exact .cons htest (List.rel_append (Stmt.resolvesTo_exprsOf hbody)
      (Otherwise.resolvesTo_exprs hotherwise))

/-- The expressions of statements become those of the resolved statements, one by one. -/
theorem Stmt.resolvesTo_exprsOf : ∀ {stmts : List (Stmt Digits)} {resolved : List (Stmt Int64)},
    Stmt.resolveBody stmts = .ok resolved →
      ResolvesTo (Stmt.exprsOf stmts) (Stmt.exprsOf resolved)
  | [], _, h => by
    cases h
    exact .nil
  | _ :: _, _, h => by
    obtain ⟨stmt, hstmt, h⟩ := Except.bind_eq_ok_iff.1 h
    obtain ⟨rest, hrest, h⟩ := Except.bind_eq_ok_iff.1 h
    cases h
    simp only [Stmt.exprsOf_cons]
    exact List.rel_append (Stmt.resolvesTo_exprs hstmt) (Stmt.resolvesTo_exprsOf hrest)

end

/-- An integer that is written without a sign is not negative. -/
theorem IsUnsigned.toInt_nonneg {digits : Digits} {n : Int64} (h : IsUnsigned digits.text)
    (hresolve : digits.resolve = .ok n) : 0 ≤ n.toInt := by
  rw [Digits.resolve] at hresolve
  split at hresolve
  next k hk =>
    cases hresolve
    obtain ⟨v, hv, rfl⟩ := Option.map_eq_some_iff.1 hk
    obtain ⟨hv, hrange⟩ := Option.filter_eq_some_iff.1 hv
    rw [Bool.and_eq_true, decide_eq_true_iff, decide_eq_true_iff, Int64.toInt_minValue,
      Int64.toInt_maxValue] at hrange
    have hnonneg : 0 ≤ v := by
      split at hv
      · obtain ⟨m, -, rfl⟩ := Option.map_eq_some_iff.1 hv
        exact Int.natCast_nonneg m
      next heq =>
        have hdigit := h '-' (by simp [heq])
        cases hdigit
      · obtain ⟨m, -, rfl⟩ := Option.map_eq_some_iff.1 hv
        exact Int.natCast_nonneg m
    rwa [Int64.toInt_ofInt_of_le hrange.1 (Int.lt_of_le_sub_one hrange.2)]
  next => cases hresolve

namespace Program

variable {limit : Nat} {source : String} {program : Program}

/-- The integers of a program are not negative before signs are folded into them. -/
theorem toInt_nonneg_of_unfolded (h : unfolded limit source = .ok program) :
    ∀ e ∈ Stmt.exprsOf program, ∀ n, .int n ∈ e.nodes → 0 ≤ n.toInt := by
  intro e he n hn
  obtain ⟨tree, rest, reach, -, hscript, hresolve⟩ := exists_script_of_unfolded h
  have hunsigned : Syntax.Grammar.Unsigned ((Syntax.scan source).map Prod.fst) := by
    intro lexeme hlexeme digits hdigits
    obtain ⟨entry, hentry, rfl⟩ := List.mem_map.1 hlexeme
    exact Syntax.isUnsigned_of_mem_scanFrom hentry hdigits
  have htree := (Syntax.Grammar.script_spells _ hunsigned hscript).1
  obtain ⟨e', he', hresolved⟩ := (Stmt.resolvesTo_exprsOf hresolve).exists_of_mem he
  obtain ⟨digits, hdigits, hn⟩ := Expr.exists_digits_of_resolve hresolved hn
  exact (htree e' he' digits hdigits).toInt_nonneg hn

/-- No integer of a program is the least one before signs are folded into them. -/
theorem hasOpposites_of_unfolded (h : unfolded limit source = .ok program) :
    ∀ e ∈ Stmt.exprsOf program, e.HasOpposites := by
  rintro e he n hn rfl
  exact absurd (toInt_nonneg_of_unfolded h e he _ hn) (by decide)

end Program

end Linewise
