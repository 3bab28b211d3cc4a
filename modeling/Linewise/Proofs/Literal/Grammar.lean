import Linewise.Proofs.Literal.Spelling
import Linewise.Proofs.Syntax.Reading

/-!
# How the grammar reads literals

The layers of an expression between a disjunction and what is read of a literal all leave it as it
is: nothing but a comma, a closing bracket or the end of the script follows it (`Closes`), and none
of them is an operator. So an expression reads the tree of a literal from its tokens
(`Value.IsLiteral.readBy`), and a script reads the assignment of one to a name
(`Value.IsLiteral.script_reads`).
-/

namespace Linewise

namespace Syntax

/-! ## Lexemes on one line -/

/-- Tokens on a line, numbered from an index on. -/
def lexemesAt (line : Line) (index : Nat) : List Token → List Lexeme
  | [] => []
  | token :: rest => ⟨token, line, index⟩ :: lexemesAt line (index + 1) rest

theorem lexemesAt_append (line : Line) (index : Nat) (tokens more : List Token) :
    lexemesAt line index (tokens ++ more) =
      lexemesAt line index tokens ++ lexemesAt line (index + tokens.length) more := by
  induction tokens generalizing index with
  | nil => rfl
  | cons token rest ih =>
    rw [List.cons_append, lexemesAt, ih, lexemesAt, List.length_cons, Nat.add_assoc,
      Nat.add_comm 1, List.cons_append]

theorem length_lexemesAt (line : Line) (index : Nat) (tokens : List Token) :
    (lexemesAt line index tokens).length = tokens.length := by
  induction tokens generalizing index with
  | nil => rfl
  | cons token rest ih => rw [lexemesAt, List.length_cons, ih, List.length_cons]

/-- The lexemes of characters among which no line ends stand on one line. -/
theorem map_fst_scanFrom {cs : List Char} (hline : '\n' ∉ cs) (skip index : Nat) (place : Place) :
    (scanFrom skip place index cs).map Prod.fst =
      lexemesAt (Line.ofCount place.line) index (tokens (cs.drop skip)) := by
  induction cs generalizing skip place index with
  | nil => rw [List.drop_nil]; rfl
  | cons c rest ih =>
    obtain ⟨hc, hrest⟩ := not_or.1 (List.mem_cons.not.1 hline)
    have hafter : (place.after c).line = place.line := by
      rw [Place.after, if_neg (Ne.symm hc)]
    cases skip with
    | succ skip => rw [scanFrom, ih hrest, hafter, List.drop_succ_cons]
    | zero =>
      rw [scanFrom, List.drop_zero, tokens_cons]
      split
      next h => rw [h, ih hrest, hafter]; rfl
      next h => rw [h, List.map_cons, ih hrest, hafter]; rfl

namespace Grammar

open Rule

/-! ## The end of an expression -/

/-- What may follow a literal: a comma or a bracket of the list around it, or the end of the
    script. -/
def closers : List Token := [.symbol .comma, .symbol .closeBracket, .finish]

/-- The first lexeme may follow a literal. -/
def Closes (lexemes : List Lexeme) : Prop :=
  ∃ lexeme rest, lexemes = lexeme :: rest ∧ lexeme.token ∈ closers

variable {size : Nat} {expr : Rule Tree} {lexeme : Lexeme} {lexemes mid rest : List Lexeme}
  {tree : Tree}

/-- A token that does not follow a literal is not read there. -/
theorem Closes.refuses_token {t : Token} (h : Closes lexemes) (ht : t ∉ closers) :
    (token t).Refuses lexemes := by
  obtain ⟨lexeme, rest, rfl, hmem⟩ := h
  exact .token (ne_of_mem_of_not_mem hmem ht)

/-- What may follow a literal is no operator of a layer. -/
theorem Closes.refuses_operator {table : Symbol → Option BinaryOp} (h : Closes lexemes)
    (hcomma : table .comma = none) (hbracket : table .closeBracket = none) :
    (operator table).Refuses lexemes := by
  obtain ⟨lexeme, rest, rfl, hmem⟩ := h
  simp only [closers, List.mem_cons, List.not_mem_nil, or_false] at hmem
  rcases hmem with htoken | htoken | htoken
  · exact .bind (.read (htoken ▸ hcomma))
  · exact .bind (.read (htoken ▸ hbracket))
  · exact .bind (.read (htoken ▸ rfl))

/-- No suffix starts with what follows a literal. -/
theorem postfixed_reads (h : (primary size expr).Reads lexemes tree rest) (hrest : Closes rest) :
    (postfixed size expr).Reads lexemes tree rest := by
  have hcall : (callArgs size expr).Refuses rest :=
    .named (.bind (hrest.refuses_token (by decide)))
  have hsubscript : (subscripted expr).Refuses rest :=
    .bind (.named (.bind (hrest.refuses_token (by decide))))
  exact .bind h (.bind (.repeated_nil (.orElse hcall hsubscript)) (.pure tree rest))

/-- No operator starts with what follows a literal, so a negation is the whole disjunction. -/
theorem disjunction_reads (hnot : (keyword .notKw).Refuses lexemes)
    (h : (negation size expr).Reads lexemes tree rest) (hrest : Closes rest) :
    (disjunction size expr).Reads lexemes tree rest := by
  have hproduct : (product size expr).Reads lexemes tree rest :=
    h.leftChain (hrest.refuses_operator rfl rfl)
  have hsum : (sum size expr).Reads lexemes tree rest :=
    hproduct.leftChain (hrest.refuses_operator rfl rfl)
  have hcomparison : (comparison size expr).Reads lexemes tree rest :=
    .bind hsum (.bind (.optional_none (.bind (hrest.refuses_operator rfl rfl)))
      (.pure tree rest))
  have hinversion : (inversion size expr).Reads lexemes tree rest :=
    hcomparison.prefixChain hnot.bind
  have hconjunction : (conjunction size expr).Reads lexemes tree rest :=
    hinversion.leftChain (.bind (.named (hrest.refuses_token (by decide))))
  exact hconjunction.leftChain (.bind (.named (hrest.refuses_token (by decide))))

/-- An expression that starts with no prefix operator reads what a primary reads. -/
theorem expression_reads {depth : Nat} (hnot : lexeme.token ≠ .keyword .notKw)
    (hminus : lexeme.token ≠ .symbol .minus)
    (h : (primary size (expression size depth)).Reads (lexeme :: mid) tree rest)
    (hrest : Closes rest) : (expression size (depth + 1)).Reads (lexeme :: mid) tree rest :=
  disjunction_reads (.keyword hnot)
    (.prefixChain (.bind (.token hminus)) (postfixed_reads h hrest)) hrest

/-- No expression starts with a closing bracket. -/
theorem expression_refuses {depth : Nat} (h : lexeme.token = .symbol .closeBracket) :
    (expression size depth).Refuses (lexeme :: rest) := by
  cases depth with
  | zero => exact .fail
  | succ depth =>
    have hprimary : (primary size (expression size depth)).Refuses (lexeme :: rest) := by
      refine .named (Reads.bind_refuses (.current lexeme rest) ?_)
      rw [h]
      exact .fail
    have hnegation : (negation size (expression size depth)).Refuses (lexeme :: rest) :=
      .prefixChain (.bind (.token (h.trans_ne (by simp)))) hprimary.bind
    have hinversion : (inversion size (expression size depth)).Refuses (lexeme :: rest) :=
      .prefixChain (.bind (.keyword (h.trans_ne (by simp)))) hnegation.leftChain.leftChain.bind
    exact hinversion.leftChain.leftChain

end Grammar

end Syntax

namespace Value

open Syntax Syntax.Grammar Syntax.Rule

variable {φ : Type} {most size depth : Nat} {v : Value φ} {line : Line} {index : Nat}
  {after : List Lexeme}

/-! ## The tokens of a literal -/

theorem length_le_length_moreTokens (items : List (Value φ)) :
    items.length ≤ (moreTokens items).length := by
  induction items with
  | nil => exact Nat.le_refl _
  | cons item rest ih =>
    rw [moreTokens, List.length_cons, List.length_cons, List.length_append]
    omega

/-- An item has fewer tokens than the list around it, which is what the bound on the recursion goes
    by. -/
theorem length_tokens_lt_moreTokens {items : List (Value φ)} (h : v ∈ items) :
    v.tokens.length < (moreTokens items).length := by
  induction items with
  | nil => cases h
  | cons item rest ih =>
    rw [moreTokens, List.length_cons, List.length_append]
    rcases List.mem_cons.1 h with rfl | h
    · omega
    · have hrest := ih h
      omega

theorem length_moreTokens_lt (items : List (Value φ)) :
    (moreTokens items).length < (list items).tokens.length := by
  rw [tokens, List.length_cons, List.length_append]
  cases items with
  | nil => exact Nat.two_pos
  | cons item rest =>
    rw [moreTokens, List.length_cons, listTokens, List.length_singleton]
    omega

/-- A literal starts with a token, and it is no sign of an assignment. -/
theorem IsLiteral.exists_tokens (h : v.IsLiteral most) : ∃ token rest, v.tokens = token :: rest ∧
    token ≠ .symbol .assign ∧ token ≠ .symbol .eq := by
  cases h with
  | int hn =>
    rw [tokens]
    split
    · exact ⟨_, _, rfl, by simp, by simp⟩
    · exact ⟨_, _, rfl, by simp, by simp⟩
  | _ =>
    rw [tokens]
    exact ⟨_, _, rfl, by simp, by simp⟩

theorem IsLiteral.length_tokens_pos (h : v.IsLiteral most) : 0 < v.tokens.length := by
  obtain ⟨token, rest, htokens, -⟩ := h.exists_tokens
  exact htokens ▸ Nat.succ_pos _

/-! ## Expressions -/

/-- What an expression reads where the tokens of a value stand. -/
def ReadBy (expr : Rule Tree) (line : Line) (v : Value φ) : Prop :=
  ∀ (index : Nat) (after : List Lexeme), Closes after →
    expr.Reads (lexemesAt line index v.tokens ++ after) (v.tree line) after

/-- A value of one token is read as a primary. -/
theorem readBy_of_primary (token : Token) (htokens : v.tokens = [token])
    (hnot : token ≠ .keyword .notKw) (hminus : token ≠ .symbol .minus) (hdepth : 0 < depth)
    (h : ∀ (expr : Rule Tree) (index : Nat) (after : List Lexeme),
      (primary size expr).Reads (⟨token, line, index⟩ :: after) (v.tree line) after) :
    v.ReadBy (expression size depth) line := by
  obtain ⟨less, rfl⟩ := Nat.exists_eq_add_of_le' hdepth
  intro index after hafter
  rw [htokens]
  exact expression_reads hnot hminus (h _ index after) hafter

theorem primary_reads_int (expr : Rule Tree) (n : Int64) (line : Line) (index : Nat)
    (after : List Lexeme) :
    (primary size expr).Reads (⟨.int (digits n), line, index⟩ :: after)
      (.int ⟨digits n, line⟩) after :=
  .named (.bind (.current _ _) (.bind (.token rfl) (.pure _ _)))

/-- The sign of a negative integer is an operator. -/
theorem readBy_int (n : Int64) (hsize : (int n : Value φ).tokens.length ≤ size)
    (hdepth : 0 < depth) : (int n : Value φ).ReadBy (expression size depth) line := by
  by_cases hneg : n.toInt < 0
  · obtain ⟨less, rfl⟩ := Nat.exists_eq_add_of_le' hdepth
    have htokens : (int n : Value φ).tokens = [.symbol .minus, .int (digits n)] := by
      rw [tokens, if_pos hneg]
    rw [htokens] at hsize
    intro index after hafter
    rw [htokens, tree, if_pos hneg]
    have hoperand : (postfixed size (expression size less)).Reads
        (⟨.int (digits n), line, index + 1⟩ :: after) (.int ⟨digits n, line⟩) after :=
      postfixed_reads (primary_reads_int _ n line _ after) hafter
    exact disjunction_reads (.keyword (by simp))
      (.prefixChain_single (Nat.le_of_succ_le hsize) (.bind (.token rfl) (.pure _ _))
        (.bind (.token (by simp))) hoperand) hafter
  · refine readBy_of_primary (.int (digits n)) (by rw [tokens, if_neg hneg]) (by simp) (by simp)
      hdepth fun expr index after => ?_
    rw [tree, if_neg hneg]
    exact primary_reads_int expr n line index after

/-- The other items of a list may follow one of them, and so may its bracket. -/
theorem closes_moreTokens (items : List (Value φ)) (line : Line) (index : Nat)
    {close : Lexeme} (hclose : close.token = .symbol .closeBracket) (after : List Lexeme) :
    Closes (lexemesAt line index (moreTokens items) ++ close :: after) := by
  cases items with
  | nil => exact ⟨close, after, rfl, by simp [closers, hclose]⟩
  | cons item rest => exact ⟨_, _, rfl, .head _⟩

/-- The items of a list after the first one are read one by one, each after its comma, up to the
    closing bracket. -/
theorem repeated_reads {expr : Rule Tree} {items : List (Value φ)}
    (h : ∀ v ∈ items, v.ReadBy expr line) (hsize : items.length ≤ size) {close : Lexeme}
    (hclose : close.token = .symbol .closeBracket) :
    (repeated (do symbol .comma; expr) size).Reads
      (lexemesAt line index (moreTokens items) ++ close :: after) (trees line items)
      (close :: after) := by
  induction items generalizing size index with
  | nil => exact .repeated_nil (.bind (.token (hclose.trans_ne (by simp))))
  | cons item rest ih =>
    obtain ⟨hitem, hrest⟩ := List.forall_mem_cons.1 h
    -- One round of the repetition for each item, so that what is left of the bound is enough for
    -- the rest.
    obtain ⟨less, rfl⟩ := Nat.exists_eq_add_of_le' (Nat.lt_of_lt_of_le rest.length.succ_pos hsize)
    rw [moreTokens, lexemesAt, lexemesAt_append, List.cons_append, List.append_assoc, trees]
    exact .repeated_cons
      (.bind (.token rfl) (hitem _ _ (closes_moreTokens rest line _ hclose after)))
      (ih hrest (Nat.le_of_succ_le_succ hsize))

/-- The items of a list are read up to its closing bracket. -/
theorem separated_reads {expr : Rule Tree} {item : Value φ} {rest : List (Value φ)}
    (hitem : item.ReadBy expr line) (hrest : ∀ v ∈ rest, v.ReadBy expr line)
    (hsize : rest.length ≤ size) {close : Lexeme}
    (hclose : close.token = .symbol .closeBracket) :
    (separated size expr).Reads
      (lexemesAt line index (listTokens (item :: rest)) ++ close :: after)
      (trees line (item :: rest)) (close :: after) := by
  rw [listTokens, lexemesAt_append, List.append_assoc, trees]
  exact .separated (hitem _ _ (closes_moreTokens rest line _ hclose after))
    (repeated_reads hrest hsize hclose)

/-- A primary reads a list when the items of it are read by the expressions inside of it. -/
theorem primary_reads_list {items : List (Value φ)}
    (h : ∀ v ∈ items, v.ReadBy (expression size depth) line) (hsize : items.length ≤ size) :
    (primary size (expression size depth)).Reads
      (lexemesAt line index (list items).tokens ++ after) ((list items).tree line) after := by
  rw [tokens, lexemesAt, List.cons_append, tree, lexemesAt_append, List.append_assoc]
  refine .named (.bind (.current _ _) (.bind (.token rfl) ?_))
  cases items with
  | nil =>
    exact .bind (.optional_none (.bind (.bind (expression_refuses rfl))))
      (.bind (.token rfl) (.pure _ _))
  | cons item rest =>
    obtain ⟨hitem, hrest⟩ := List.forall_mem_cons.1 h
    exact .bind (.optional (.bind (separated_reads hitem hrest (Nat.le_of_succ_le hsize) rfl)
      (.bind (.optional_none (.token (by simp))) (.pure _ _)))) (.bind (.token rfl) (.pure _ _))

/-- An expression reads a literal from its tokens. -/
theorem IsLiteral.readBy (h : v.IsLiteral most) (hsize : v.tokens.length ≤ size)
    (hdepth : v.tokens.length ≤ depth) : v.ReadBy (expression size depth) line := by
  have hpos := Nat.lt_of_lt_of_le h.length_tokens_pos hdepth
  -- Each list takes a level of the bound on the recursion, and has more tokens than any item of it.
  induction h generalizing depth with
  | none =>
    refine readBy_of_primary (.keyword .noneKw) (by rw [tokens]) (by simp) (by simp) hpos
      fun expr index after => ?_
    exact .named (.bind (.current _ _) (.bind (.token rfl) (.pure _ _)))
  | bool b =>
    refine readBy_of_primary (.keyword (truthKw b)) (by rw [tokens]) ?_ (by simp) hpos
      fun expr index after => ?_
    · cases b <;> simp [truthKw]
    · cases b <;> exact .named (.bind (.current _ _) (.bind (.token rfl) (.pure _ _)))
  | int hn => exact readBy_int _ hsize hpos
  | str s =>
    refine readBy_of_primary (.text (escaped s)) (by rw [tokens]) (by simp) (by simp) hpos
      fun expr index after => ?_
    have hread : (primary size expr).Reads (⟨.text (escaped s), line, index⟩ :: after)
        (.str (String.ofList (unescape (escaped s)))) after :=
      .named (.bind (.current _ _) (.bind (.token rfl) (.pure _ _)))
    rwa [ofList_unescape_escaped] at hread
  | @list most items h ih =>
    obtain ⟨less, rfl⟩ := Nat.exists_eq_add_of_le' hpos
    have hlength := length_moreTokens_lt items
    have hitems : ∀ v ∈ items, v.ReadBy (expression size less) line := by
      intro v hv
      have hlt := length_tokens_lt_moreTokens hv
      have hone := (h v hv).length_tokens_pos
      exact ih v hv (by omega) (by omega) (by omega)
    have hcount := length_le_length_moreTokens items
    intro index after hafter
    have hlist : (primary size (expression size less)).Reads
        (lexemesAt line index (Value.list items).tokens ++ after) ((Value.list items).tree line)
        after := primary_reads_list hitems (by omega)
    rw [tokens] at hlist ⊢
    exact expression_reads (by simp) (by simp) hlist hafter

/-! ## Scripts -/

/-- The tokens of a script that assigns a value to a name. -/
def assigned (name : String) (v : Value φ) : List Token :=
  .ident name :: .symbol .assign :: (v.tokens ++ [.finish])

/-- An assignment of a literal is read from its tokens. -/
theorem IsLiteral.assignment_reads (h : v.IsLiteral most) (name : String)
    (hsize : v.tokens.length ≤ size) :
    (assignment (expression size size) line).Reads (lexemesAt line index (v.assigned name))
      (.assign line name (v.tree line))
      [⟨.finish, line, index + 1 + 1 + v.tokens.length⟩] := by
  obtain ⟨token, more, htokens, hassign, heq⟩ := h.exists_tokens
  have hreads : v.ReadBy (expression size size) line := h.readBy hsize hsize
  have hvalue := hreads (index + 1 + 1) [⟨.finish, line, index + 1 + 1 + v.tokens.length⟩]
    ⟨_, _, rfl, by simp [closers]⟩
  rw [assigned, lexemesAt, lexemesAt, lexemesAt_append]
  -- The name is read, no subscript follows it, and the sign of the assignment does.
  refine .bind (.named (.read rfl)) (.bind (.optional_none (.named (.bind (.token (by simp)))))
    (.bind (.token rfl) ?_))
  -- The sign of the assignment is followed by the first token of the literal.
  rw [htokens] at hvalue ⊢
  refine .bind (.current _ _) ?_
  dsimp only
  split
  · exact absurd rfl hassign
  · exact absurd rfl heq
  · exact .bind hvalue (.pure _ _)

/-- A script reads the assignment of a literal to a name. -/
theorem IsLiteral.script_reads (h : v.IsLiteral most) (name : String)
    (hsize : v.tokens.length < size) :
    (script size).Reads (lexemesAt line index (v.assigned name))
      [.assign line name (v.tree line)] [] := by
  obtain ⟨less, rfl⟩ := Nat.exists_eq_add_of_le' (Nat.zero_lt_of_lt hsize)
  have hstatement : (statement (less + 1) (expression (less + 1) (less + 1))
      (body (less + 1) less)).Reads (lexemesAt line index (v.assigned name))
        (.assign line name (v.tree line)) [⟨.finish, line, index + 1 + 1 + v.tokens.length⟩] :=
    .bind (.mark _) (.bind (.current _ _)
      (.orElse (h.assignment_reads name (Nat.le_of_lt hsize))))
  have hfirst : separator.Refuses (lexemesAt line index (v.assigned name)) :=
    .orElse (.token (by simp)) (.token (by simp))
  have hlast : separator.Refuses [⟨.finish, line, index + 1 + 1 + v.tokens.length⟩] :=
    .orElse (.token (by simp)) (.token (by simp))
  have hbody : (body (less + 1) (less + 1)).Reads (lexemesAt line index (v.assigned name))
      [.assign line name (v.tree line)] [⟨.finish, line, index + 1 + 1 + v.tokens.length⟩] :=
    .bind (.repeated_nil hfirst) (.bind (.optional hstatement)
      (.bind (.repeated_nil hlast.bind) (.bind (.repeated_nil hlast) (.pure _ _))))
  exact .bind hbody (.bind (.named (.token rfl)) (.pure _ _))

end Value

end Linewise
