import Linewise.Proofs.Syntax.Layer
import Linewise.Proofs.Syntax.Nesting
import Linewise.Proofs.Syntax.Rule
import Linewise.Syntax.Grammar

/-!
# What the grammar nests

When the tokens of a script nest within a limit, so does the tree that the grammar reads from them
(`Grammar.script_fits`). Each rule leaves as many brackets open as it found, and each prefix
operator that it reads is one of the run in front of the next token.
-/

namespace Linewise.Syntax.Grammar

open Rule Nesting

/-- The lexemes that are left nest within a limit: `depth` brackets are open in front of them, and
    at least `run` prefix operators have just been read. -/
def Open (limit depth run : Nat) (lexemes : List Lexeme) : Prop :=
  ∃ r, run ≤ r ∧ (⟨depth, r⟩ : Depth).StaysWithin limit (lexemes.map Lexeme.token)

variable {limit depth run : Nat} {lexemes : List Lexeme} {size : Nat}

/-- Brackets and prefix operators that are open are within the limit. -/
theorem Open.le (h : Open limit depth run lexemes) : depth + run ≤ limit := by
  obtain ⟨r, hr, h⟩ := h
  have htotal : depth + r ≤ limit := by
    cases lexemes with
    | nil => exact h
    | cons lexeme rest => exact h.1
  exact Nat.le_trans (Nat.add_le_add_left hr depth) htotal

theorem Open.forget (h : Open limit depth run lexemes) : Open limit depth 0 lexemes := by
  obtain ⟨r, -, h⟩ := h
  exact ⟨r, Nat.zero_le r, h⟩

/-- What the rule reads is of some kind, and the rule leaves as many brackets open as it finds. -/
abbrev Yields {α : Type} (limit depth : Nat) (p : Rule α) (V : α → Prop) : Prop :=
  p.Gives (Open limit depth 0) (Open limit depth 0) V

/-! ## Single tokens -/

/-- A rule for single tokens, none of them stray, that all have the same effect on the depth. -/
theorem read_gives {α : Type} {g : Token → Option α} {V : α → Prop} {depth' run' : Nat}
    (h : ∀ t a, g t = some a → V a ∧ t.isStray = false ∧ ∀ r, run ≤ r →
      (Depth.after ⟨depth, r⟩ t).brackets = depth' ∧ run' ≤ (Depth.after ⟨depth, r⟩ t).run) :
    (read g).Gives (Open limit depth run) (Open limit depth' run') fun a =>
      V a ∧ depth' ≤ limit := by
  refine .read fun lexeme rest a hopen hg => ?_
  obtain ⟨hV, hstray, hafter⟩ := h _ _ hg
  obtain ⟨r, hr, -, hstay⟩ := hopen
  have hrest := hstay.resolve_left fun h => Bool.noConfusion (hstray.symm.trans h)
  have hopen' : Open limit depth' run' rest := by
    refine ⟨_, (hafter r hr).2, ?_⟩
    rwa [← (hafter r hr).1]
  exact ⟨⟨hV, Nat.le_trans (Nat.le_add_right _ _) hopen'.le⟩, hopen'⟩

/-- A given token changes the depth as it says. -/
theorem token_gives (t : Token) {depth' run' : Nat} (hstray : t.isStray = false)
    (hafter : ∀ r, run ≤ r →
      (Depth.after ⟨depth, r⟩ t).brackets = depth' ∧ run' ≤ (Depth.after ⟨depth, r⟩ t).run) :
    (token t).Gives (Open limit depth run) (Open limit depth' run') fun _ => depth' ≤ limit := by
  refine (read_gives (V := fun _ => True) fun u a hu => ⟨trivial, ?_⟩).imp fun _ h => h.2
  split at hu
  next heq => exact heq ▸ ⟨hstray, hafter⟩
  next => cases hu

/-- A token that neither opens nor closes anything leaves the brackets as they are. -/
theorem plain_gives (t : Token) (hstray : t.isStray = false)
    (hafter : ∀ r, (Depth.after ⟨depth, r⟩ t).brackets = depth) :
    (token t).Gives (Open limit depth run) (Open limit depth 0) fun _ => depth ≤ limit :=
  token_gives t hstray fun r _ => ⟨hafter r, Nat.zero_le _⟩

theorem open_gives (s : Symbol)
    (hafter : ∀ r, (Depth.after ⟨depth, r⟩ (.symbol s)).brackets = depth + 1) :
    (symbol s).Gives (Open limit depth run) (Open limit (depth + 1) 0) fun _ => depth < limit :=
  token_gives _ rfl fun r _ => ⟨hafter r, Nat.zero_le _⟩

theorem close_gives (s : Symbol)
    (hafter : ∀ r, (Depth.after ⟨depth + 1, r⟩ (.symbol s)).brackets = depth) :
    (symbol s).Gives (Open limit (depth + 1) run) (Open limit depth 0) fun _ => depth ≤ limit :=
  token_gives _ rfl fun r _ => ⟨hafter r, Nat.zero_le _⟩

theorem comma_gives : Yields limit depth (symbol .comma) fun _ => True :=
  (plain_gives _ rfl fun _ => rfl).imp fun _ _ => trivial

theorem keyword_gives (k : Keyword) : Yields limit depth (keyword k) fun _ => depth ≤ limit := by
  refine .named (plain_gives (.keyword k) rfl fun r => ?_)
  cases k <;> rfl

theorem name_gives : Yields limit depth name fun _ => depth ≤ limit := by
  refine .named ((read_gives (V := fun _ => True) fun t a ht => ?_).imp fun _ h => h.2)
  cases t with
  | ident n => exact ⟨trivial, rfl, fun _ _ => ⟨rfl, Nat.zero_le _⟩⟩
  | _ => cases ht

/-! ## Layers -/

/-- The expression belongs to a layer that is tighter than the given one. -/
def Below (limit depth : Nat) (layer : Layer) (e : Tree) : Prop :=
  ∃ tighter : Layer, tighter.rank < layer.rank ∧ depth + tighter.run ≤ limit ∧
    e.Fits limit depth tighter

variable {expr operand : Rule Tree} {layer : Layer}

theorem Below.fits {e : Tree} (h : Below limit depth layer e) : e.Fits limit depth layer := by
  obtain ⟨tighter, hrank, hrun, he⟩ := h
  exact .lift he hrun hrank

theorem below_of_fits {tighter : Layer} {e : Tree} (h : e.Fits limit depth tighter)
    (hrank : tighter.rank < layer.rank) (hrun : tighter.run = 0) : Below limit depth layer e :=
  ⟨tighter, hrank, by rw [hrun]; exact h.depth_le, h⟩

/-- An operator of a layer joins its operands in that layer, and leaves the depth as it is. -/
theorem operator_gives (layer : Layer) {table : Symbol → Option BinaryOp}
    (htable : ∀ s op, table s = some op → op.layer = layer ∧
      ∀ r, (Depth.after ⟨depth, r⟩ (.symbol s)).brackets = depth) :
    Yields limit depth (operator table) fun join =>
      ∃ op : BinaryOp, op.layer = layer ∧ join = .binary op := by
  refine .bind (V := fun op => op.layer = layer) ((read_gives (V := fun op => op.layer = layer)
    fun t op ht => ?_).imp fun _ h => h.1) fun op hop => .pure ⟨op, hop, rfl⟩
  cases t with
  | symbol s =>
    obtain ⟨hlayer, hafter⟩ := htable s op ht
    exact ⟨hlayer, rfl, fun r _ => ⟨hafter r, Nat.zero_le _⟩⟩
  | _ => cases ht

/-- A chain of operators of a layer fits the layer, if its operands bind more tightly. -/
theorem binaryChain_gives {table : Symbol → Option BinaryOp}
    (hoperand : Yields limit depth operand (Below limit depth layer))
    (htable : ∀ s op, table s = some op → op.layer = layer ∧
      ∀ r, (Depth.after ⟨depth, r⟩ (.symbol s)).brackets = depth) :
    Yields limit depth (leftChain size operand (operator table)) (Expr.Fits limit depth layer) := by
  refine .leftChain hoperand (operator_gives layer htable) (fun _ => Below.fits) ?_
  rintro _ left right ⟨op, rfl, rfl⟩ hleft ⟨tighter, hrank, hrun, hright⟩
  exact .binary hleft hright hrun hrank

theorem logicChain_gives (op : LogicOp) {k : Keyword}
    (hoperand : Yields limit depth operand (Below limit depth op.layer)) :
    Yields limit depth (leftChain size operand (do keyword k; return .logic op))
      (Expr.Fits limit depth op.layer) := by
  refine .leftChain (J := (· = .logic op)) hoperand ((keyword_gives k).bind fun _ _ => .pure rfl)
    (fun _ => Below.fits) ?_
  rintro _ left right rfl hleft ⟨tighter, hrank, hrun, hright⟩
  exact .logic hleft hright hrun hrank

/-- A prefix operator is one more of the run. -/
theorem prefix_gives (t : Token) (hstray : t.isStray = false)
    (hafter : ∀ r, Depth.after ⟨depth, r⟩ t = ⟨depth, r + 1⟩) :
    (token t).Gives (Open limit depth run) (Open limit depth (run + 1)) fun _ => depth ≤ limit :=
  token_gives t hstray fun r hr => by
    rw [hafter]
    exact ⟨rfl, Nat.succ_le_succ hr⟩

/-- Prefix operators in front of an operand, which is of a layer that counts them. -/
theorem prefixChain_gives (layerOf : Nat → Layer) {op : Rule (Tree → Tree)} {o : UnaryOp}
    (hop : ∀ run, op.Gives (Open limit depth run) (Open limit depth (run + 1)) (· = .unary o))
    (hoperand : Yields limit depth operand (Expr.Fits limit depth (layerOf 0)))
    (hunary : ∀ n e, e.Fits limit depth (layerOf n) →
      (Expr.unary o e : Tree).Fits limit depth (layerOf (n + 1))) :
    Yields limit depth (prefixChain size op operand) fun e =>
      ∃ n, depth + n ≤ limit ∧ e.Fits limit depth (layerOf n) := by
  have hfits : ∀ ops : List (Tree → Tree), (∀ apply ∈ ops, apply = .unary o) → ∀ inner : Tree,
      inner.Fits limit depth (layerOf 0) →
        (ops.foldr (fun apply a => apply a) inner).Fits limit depth (layerOf ops.length) := by
    intro ops hops inner hinner
    induction ops with
    | nil => exact hinner
    | cons apply ops ih =>
      obtain ⟨rfl, htail⟩ := List.forall_mem_cons.1 hops
      exact hunary _ _ (ih htail)
  -- The operators that have been read are all in the run in front of the next token.
  refine Ensures.bind (Gives.counted hop) fun ops => ?_
  rintro lexemes rest reach reach' e ⟨hops, hopen⟩ heq
  have hrest : Yields limit depth
      (do let inner ← operand; return ops.foldr (fun apply a => apply a) inner) fun e =>
        ∃ n, depth + n ≤ limit ∧ e.Fits limit depth (layerOf n) :=
    hoperand.bind fun inner hinner => .pure ⟨ops.length, hopen.le, hfits ops hops inner hinner⟩
  exact hrest hopen.forget heq

/-! ## Expressions -/

section Expressions

variable (hexpr : ∀ depth, Yields limit depth expr (Expr.Fits limit depth .whole))
include hexpr

theorem items_gives : Yields limit depth (optional (separated size expr)) fun items =>
    ∀ item ∈ items.getD [], item.Fits limit depth .whole := by
  refine ((hexpr depth).separated comma_gives).optional.imp fun items hitems => ?_
  cases items with
  | none => exact nofun
  | some items => exact hitems items rfl

/-- What is read as an atom, a list or an expression in parentheses fits that layer. -/
theorem primary_gives :
    Yields limit depth (primary size expr) (Expr.Fits limit depth .primary) := by
  have hatom : ∀ (t : Token) (tree : Tree), t.isStray = false →
      (∀ r, (Depth.after ⟨depth, r⟩ t).brackets = depth) → tree.isAtom = true →
        Yields limit depth (do token t; return tree) (Expr.Fits limit depth .primary) :=
    fun t tree hstray hafter hatom =>
      (plain_gives t hstray hafter).bind fun _ hdepth => .pure (.atom hdepth hatom)
  refine .named (Gives.current.bind fun lexeme _ => ?_)
  split
  case h_8 =>
    -- Inside of the brackets the depth is one more, and after them it is what it was.
    refine (open_gives .openBracket fun _ => rfl).bind fun _ hdepth => .bind (.optional
      (((hexpr _).separated comma_gives).bind fun items hitems =>
        comma_gives.optional.bind fun _ _ => .pure hitems)) fun items hitems =>
      (close_gives .closeBracket fun _ => rfl).bind fun _ _ => .pure (.list hdepth ?_)
    cases items with
    | none => exact nofun
    | some items => exact hitems items rfl
  case h_9 =>
    exact (open_gives .openParen fun _ => rfl).bind fun _ _ => (hexpr _).bind fun inner hinner =>
      (close_gives .closeParen fun _ => rfl).bind fun _ _ => .pure (.parens hinner)
  case h_10 => exact .fail
  all_goals
    rename_i heq
    rw [heq]
    exact hatom _ _ rfl (fun _ => rfl) rfl

theorem subscript_gives :
    Yields limit depth (subscript expr) (Expr.Fits limit (depth + 1) .whole) :=
  .named ((open_gives .openBracket fun _ => rfl).bind fun _ _ => (hexpr _).bind fun _ hindex =>
    (close_gives .closeBracket fun _ => rfl).bind fun _ _ => .pure hindex)

/-- A call or a subscript of what fits its layer fits it as well. -/
theorem suffix_gives : Yields limit depth (orElse (callArgs size expr) (subscripted expr))
    fun apply => ∀ e : Tree, e.Fits limit depth .postfixed →
      (apply e).Fits limit depth .postfixed := by
  refine .orElse (.named ?_) ?_
  · exact (open_gives .openParen fun _ => rfl).bind fun _ hdepth => (items_gives hexpr).bind
      fun args hargs => (close_gives .closeParen fun _ => rfl).bind fun _ _ =>
        .pure fun callee hcallee => .call hdepth hcallee hargs
  · exact (subscript_gives hexpr).bind fun index hindex =>
      .pure fun object hobject => .subscript hobject hindex

theorem postfixed_gives :
    Yields limit depth (postfixed size expr) (Expr.Fits limit depth .postfixed) := by
  refine (primary_gives hexpr).bind fun first hfirst => (suffix_gives hexpr).repeated.bind
    fun suffixes hsuffixes => .pure ?_
  exact List.foldlRecOn suffixes _ (below_of_fits hfirst (by decide) rfl).fits
    fun e he apply hmem => hsuffixes apply hmem e he

theorem negation_gives : Yields limit depth (negation size expr) (Below limit depth .product) := by
  refine (prefixChain_gives .negation (fun run => ?_) ((postfixed_gives hexpr).imp
    fun e he => (below_of_fits he (by decide) rfl).fits) fun n e => .neg).imp ?_
  · exact (prefix_gives _ rfl fun _ => rfl).bind fun _ _ => .pure rfl
  · rintro e ⟨n, hn, he⟩
    exact ⟨.negation n, (by decide : 2 < 3), hn, he⟩

theorem sum_gives : Yields limit depth (sum size expr) (Expr.Fits limit depth .sum) := by
  refine binaryChain_gives ((binaryChain_gives (negation_gives hexpr) fun s op hop => ?_).imp
    fun e he => below_of_fits he (by decide) rfl) fun s op hop => ?_
  all_goals cases s <;> cases hop <;> exact ⟨rfl, fun _ => rfl⟩

/-- What is read as a comparison fits that layer: a sum, or two of them with an operator in
    between. -/
theorem comparison_gives :
    Yields limit depth (comparison size expr) (Expr.Fits limit depth .comparison) := by
  have hbelow : Yields limit depth (sum size expr) (Below limit depth .comparison) :=
    (sum_gives hexpr).imp fun e he => below_of_fits he (by decide) rfl
  have hrest : Yields limit depth
      (do let join ← operator comparison?; let right ← sum size expr; return (join · right))
      fun apply => ∀ left, Below limit depth .comparison left →
        (apply left).Fits limit depth .comparison := by
    -- Only operators of this layer are taken here, so the right operand binds more tightly.
    refine (operator_gives .comparison fun s op hop => ?_).bind fun join hjoin =>
      hbelow.bind fun right hright => .pure fun left hleft => ?_
    · cases s <;> cases hop <;> exact ⟨rfl, fun _ => rfl⟩
    · obtain ⟨op, hlayer, rfl⟩ := hjoin
      obtain ⟨tighter, hrank, hrun, hright⟩ := hright
      rw [← hlayer] at hrank hleft ⊢
      exact .binary hleft.fits hright hrun hrank
  refine hbelow.bind fun left hleft => hrest.optional.bind fun rest hrest => .pure ?_
  cases rest with
  | none => exact hleft.fits
  | some apply => exact hrest apply rfl left hleft

/-- What is read as a disjunction fits that layer. -/
theorem disjunction_gives :
    Yields limit depth (disjunction size expr) (Expr.Fits limit depth .disjunction) := by
  refine logicChain_gives .or ((logicChain_gives .and ((prefixChain_gives .inversion
    (fun run => ?_) ((comparison_gives hexpr).imp fun e he =>
      (below_of_fits he (by decide) rfl).fits) fun n e => .not).imp ?_)).imp
    fun e he => below_of_fits he (by decide) rfl)
  · exact (prefix_gives _ rfl fun _ => rfl).named.bind fun _ _ => .pure rfl
  · rintro e ⟨n, hn, he⟩
    exact ⟨.inversion n, (by decide : 6 < 7), hn, he⟩

end Expressions

/-- An expression that is read nests within the limit. -/
theorem expression_gives (limit size n : Nat) : ∀ depth,
    Yields limit depth (expression size n) (Expr.Fits limit depth .whole) := by
  induction n with
  | zero => exact fun depth => .fail
  | succ n ih =>
    exact fun depth => (disjunction_gives ih).imp fun e he =>
      (below_of_fits he (by decide) rfl).fits

/-! ## Statements -/

section Statements

variable {body : Rule (List Statement)}
  (hexpr : ∀ depth, Yields limit depth expr (Expr.Fits limit depth .whole))
  (hbody : ∀ depth, Yields limit depth body fun statements =>
    PartsFit limit (Stmt.partsOf depth statements))
include hexpr hbody

omit hexpr in
theorem block_gives : Yields limit depth (block body) fun statements =>
    PartsFit limit (Stmt.partsOf (depth + 1) statements) :=
  .named ((open_gives .openBrace fun _ => rfl).bind fun _ _ => (hbody _).bind fun _ hstatements =>
    (close_gives .closeBrace fun _ => rfl).bind fun _ _ => .pure hstatements)

theorem arm_gives : Yields limit depth (arm expr body) fun (_, test, statements) =>
    test.Fits limit depth .whole ∧ PartsFit limit (Stmt.partsOf (depth + 1) statements) :=
  Gives.current.bind fun _ _ => (keyword_gives _).bind fun _ _ => (hexpr _).bind fun _ htest =>
    (block_gives hbody).bind fun _ hstatements => .pure ⟨htest, hstatements⟩

/-- All parts of what a conditional goes on with fit the depth that they stand at. -/
theorem otherwise_gives : Yields limit depth (otherwise size expr body) fun rest =>
    PartsFit limit (rest.parts depth) := by
  refine (arm_gives hexpr hbody).repeated.bind fun arms harms => .bind (.optional
    ((keyword_gives _).bind fun _ _ => block_gives hbody)) fun last hlast => .pure ?_
  refine List.foldrRecOn arms _ (motive := fun rest : Otherwise Digits =>
    PartsFit limit (rest.parts depth)) ?_ fun rest hrest arm harm => ?_
  · cases last with
    | none => exact partsFit_nil
    | some statements => exact hlast statements rfl
  · obtain ⟨htest, hstatements⟩ := harms arm harm
    exact partsFit_cons.2 ⟨htest, partsFit_append.2 ⟨hstatements, hrest⟩⟩

omit hbody in
/-- All parts of an assignment fit the depth that they stand at. -/
theorem assignment_gives (line : Line) : Yields limit depth (assignment expr line) fun stmt =>
    PartsFit limit (stmt.parts depth) := by
  refine name_gives.bind fun target hdepth => (subscript_gives hexpr).optional.bind
    fun index hindex => (plain_gives (.symbol .assign) rfl fun _ => rfl).bind fun _ _ =>
      Gives.current.bind fun next _ => ?_
  split
  case h_3 =>
    refine (hexpr _).bind fun value hvalue => .pure ?_
    cases index with
    | none => exact partsFit_cons.2 ⟨hdepth, partsFit_cons.2 ⟨hvalue, partsFit_nil⟩⟩
    | some index =>
      exact partsFit_cons.2 ⟨hdepth, partsFit_cons.2 ⟨hindex index rfl,
        partsFit_cons.2 ⟨hvalue, partsFit_nil⟩⟩⟩
  all_goals exact .fail

omit hexpr hbody in
theorem parameters_gives : Yields limit depth (parameters size) fun _ => depth ≤ limit :=
  (open_gives .openParen fun _ => rfl).bind fun _ _ =>
    (name_gives.separated comma_gives).optional.bind fun _ _ =>
      (close_gives .closeParen fun _ => rfl).bind fun _ hdepth => .pure hdepth

/-- All parts of a statement that has been read fit the depth that they stand at. -/
theorem statement_gives : Yields limit depth (statement size expr body) fun stmt =>
    PartsFit limit (stmt.parts depth) := by
  refine .bind .mark fun _ _ => Gives.current.bind fun lexeme _ => ?_
  -- One case for each keyword that a statement may begin with, and one for all other statements.
  split
  · refine (keyword_gives _).bind fun _ hdepth => (hexpr _).bind fun test htest =>
      (block_gives hbody).bind fun statements hstatements => (otherwise_gives hexpr hbody).bind
        fun rest hrest => .pure ?_
    exact partsFit_cons.2 ⟨hdepth, partsFit_cons.2 ⟨htest, partsFit_append.2 ⟨hstatements, hrest⟩⟩⟩
  · refine (keyword_gives _).bind fun _ hdepth => (hexpr _).bind fun test htest =>
      (block_gives hbody).bind fun statements hstatements => .pure ?_
    exact partsFit_cons.2 ⟨hdepth, partsFit_cons.2 ⟨htest, hstatements⟩⟩
  · refine (keyword_gives _).bind fun _ hdepth => name_gives.bind fun var _ =>
      (keyword_gives _).bind fun _ _ => (hexpr _).bind fun iterable hiterable =>
        (block_gives hbody).bind fun statements hstatements => .pure ?_
    exact partsFit_cons.2 ⟨hdepth, partsFit_cons.2 ⟨hiterable, hstatements⟩⟩
  · refine (keyword_gives _).bind fun _ hdepth => name_gives.bind fun function _ =>
      parameters_gives.bind fun params _ => (block_gives hbody).bind fun statements hstatements =>
        .pure ?_
    exact partsFit_cons.2 ⟨hdepth, hstatements⟩
  · refine (keyword_gives _).bind fun _ hdepth => (hexpr _).optional.bind fun value hvalue =>
      .pure ?_
    cases value with
    | none => exact partsFit_cons.2 ⟨hdepth, partsFit_nil⟩
    | some value =>
      exact partsFit_cons.2 ⟨hdepth, partsFit_cons.2 ⟨hvalue value rfl, partsFit_nil⟩⟩
  · exact (keyword_gives _).bind fun _ hdepth => .pure (partsFit_cons.2 ⟨hdepth, partsFit_nil⟩)
  · exact (keyword_gives _).bind fun _ hdepth => .pure (partsFit_cons.2 ⟨hdepth, partsFit_nil⟩)
  · exact (keyword_gives _).bind fun _ hdepth => .pure (partsFit_cons.2 ⟨hdepth, partsFit_nil⟩)
  · refine .orElse (assignment_gives hexpr _) ((hexpr _).bind fun value hvalue => .pure ?_)
    exact partsFit_cons.2 ⟨hvalue.depth_le, partsFit_cons.2 ⟨hvalue, partsFit_nil⟩⟩

end Statements

/-- All parts of statements that have been read fit the depth that they stand at. -/
theorem statements_gives {one : Rule Statement}
    (hone : Yields limit depth one fun stmt => PartsFit limit (stmt.parts depth)) :
    Yields limit depth (statements size one) fun statements =>
      PartsFit limit (Stmt.partsOf depth statements) := by
  have hseparator : Yields limit depth separator fun _ => True :=
    (Gives.orElse (plain_gives .newline rfl fun _ => rfl)
      (plain_gives (.symbol .semicolon) rfl fun _ => rfl)).imp fun _ _ => trivial
  have hmore : Yields limit depth (do separator; let _ ← repeated separator size; one)
      fun stmt => PartsFit limit (stmt.parts depth) :=
    hseparator.bind fun _ _ => hseparator.repeated.bind fun _ _ => hone
  refine hseparator.repeated.bind fun _ _ => hone.optional.bind fun first hfirst => ?_
  cases first with
  | none => exact .pure partsFit_nil
  | some first =>
    refine hmore.repeated.bind fun rest hrest => hseparator.repeated.bind fun _ _ => .pure ?_
    refine partsFit_append.2 ⟨hfirst first rfl, ?_⟩
    clear hfirst
    induction rest with
    | nil => exact partsFit_nil
    | cons stmt rest ih =>
      obtain ⟨hstmt, htail⟩ := List.forall_mem_cons.1 hrest
      exact partsFit_append.2 ⟨hstmt, ih htail⟩

/-- All parts of a body fit the depth that they stand at. -/
theorem body_gives (limit size n : Nat) : ∀ depth,
    Yields limit depth (Grammar.body size n) fun statements =>
      PartsFit limit (Stmt.partsOf depth statements) := by
  induction n with
  | zero => exact fun depth => .fail
  | succ n ih =>
    exact fun depth => statements_gives (statement_gives (expression_gives limit size size) ih)

/-- The tree of a script nests within every limit that its tokens nest within. -/
theorem script_fits {rest : List Lexeme} {reach reach' : Nat} {tree : List Statement}
    (hstays : (⟨0, 0⟩ : Depth).StaysWithin limit (lexemes.map Lexeme.token))
    (h : script size lexemes reach = (some (tree, rest), reach')) :
    PartsFit limit (Stmt.partsOf 0 tree) := by
  have hscript : Yields limit 0 (script size) fun statements =>
      PartsFit limit (Stmt.partsOf 0 statements) :=
    (body_gives limit size size 0).bind fun statements hstatements =>
      (plain_gives .finish rfl fun _ => rfl).named.bind fun _ _ => .pure hstatements
  exact (hscript ⟨0, Nat.le_refl 0, hstays⟩ h).1

end Linewise.Syntax.Grammar
