import Linewise.Proofs.Syntax.Legal
import Linewise.Proofs.Syntax.Rule
import Linewise.Syntax.Grammar

/-!
# What the grammar reads

Every expression takes one lexeme at least, and a tree that the grammar reads has its lines and
names from the lexemes, in their order: whatever is noted of these (`Stmt.marks`) has been noted of
the lexemes too (`Grammar.script_marks`).
-/

namespace Linewise.Syntax.Grammar

open Rule

/-! ## Expressions -/

section Expressions

variable {size : Nat} {expr : Rule Tree}

theorem name_consumes : name.Consumes := .named (.read _)

/-- An atom, a list or an expression in parentheses takes at least one lexeme. -/
theorem primary_consumes (h : expr.Consumes) : (primary size expr).Consumes := by
  have htoken : ∀ (t : Token) (tree : Tree),
      (do token t; return tree : Rule Tree).Consumes :=
    fun t tree => (Consumes.token t).bind fun _ => .pure tree
  refine .named (Takes.current.bind_consumes fun lexeme => ?_)
  split
  case h_8 =>
    refine (Consumes.symbol _).bind fun _ => .bind (.optional ?_) fun items =>
      (Consumes.symbol _).takes.bind fun _ => .pure _
    exact h.separated.takes.bind fun items =>
      (Takes.optional (Consumes.symbol _).takes).bind fun _ => .pure _
  case h_9 =>
    exact (Consumes.symbol _).bind fun _ => h.takes.bind fun inner =>
      (Consumes.symbol _).takes.bind fun _ => .pure _
  case h_10 => exact .fail
  all_goals exact htoken _ _

theorem callArgs_consumes (h : expr.Consumes) : (callArgs size expr).Consumes :=
  .named ((Consumes.symbol _).bind fun _ => (Takes.optional h.separated.takes).bind fun _ =>
    (Consumes.symbol _).takes.bind fun _ => .pure _)

theorem subscript_consumes (h : expr.Consumes) : (subscript expr).Consumes :=
  .named ((Consumes.symbol _).bind fun _ => h.takes.bind fun _ =>
    (Consumes.symbol _).takes.bind fun _ => .pure _)

theorem operator_consumes (table : Symbol → Option BinaryOp) : (operator table).Consumes :=
  (Consumes.read _).bind fun _ => .pure _

theorem postfixed_consumes (h : expr.Consumes) : (postfixed size expr).Consumes :=
  (primary_consumes h).bind fun _ => (Takes.repeated ((callArgs_consumes h).orElse
    ((subscript_consumes h).bind fun _ => .pure _)).takes).bind fun _ => .pure _

theorem negation_consumes (h : expr.Consumes) : (negation size expr).Consumes :=
  .prefixChain ((Consumes.symbol _).bind fun _ => .pure _) (postfixed_consumes h)

theorem sum_consumes (h : expr.Consumes) : (sum size expr).Consumes :=
  .leftChain (.leftChain (negation_consumes h) (operator_consumes _)) (operator_consumes _)

theorem comparison_consumes (h : expr.Consumes) : (comparison size expr).Consumes :=
  (sum_consumes h).bind fun _ => (Takes.optional ((operator_consumes _).takes.bind fun _ =>
    (sum_consumes h).takes.bind fun _ => .pure _)).bind fun _ => .pure _

theorem disjunction_consumes (h : expr.Consumes) : (disjunction size expr).Consumes :=
  .leftChain (.leftChain
    (.prefixChain ((Consumes.keyword _).bind fun _ => .pure _) (comparison_consumes h))
    ((Consumes.keyword _).bind fun _ => .pure _)) ((Consumes.keyword _).bind fun _ => .pure _)

/-- Every expression takes one lexeme at least. -/
theorem expression_consumes (size depth : Nat) : (expression size depth).Consumes := by
  induction depth with
  | zero => exact .fail
  | succ depth ih => exact disjunction_consumes ih

end Expressions

/-! ## Statements -/

section Statements

variable {α β : Type} (ofLine : Line → List β) (ofName : String → List β)

/-- What is noted of a lexeme: its line and, if it is one, its name. -/
def marksAt (lexeme : Lexeme) : List β :=
  ofLine lexeme.line ++ match lexeme.token with
    | .ident name => ofName name
    | _ => []

/-- What has been noted already stands in `whole`, with what is noted of the lexemes left behind
    it. -/
def Noted (whole before : List β) (lexemes : List Lexeme) : Prop :=
  (before ++ lexemes.flatMap (marksAt ofLine ofName)).Sublist whole

/-- What is noted of what a rule reads is noted of the lexemes that it takes. -/
def Notes (p : Rule α) (marks : α → List β) : Prop :=
  ∀ whole before, p.Ensures (Noted ofLine ofName whole before) fun a =>
    Noted ofLine ofName whole (before ++ marks a)

/-- The lexemes begin with a given one, and something has been noted before them. -/
def Begins (whole before : List β) (first : Lexeme) (lexemes : List Lexeme) : Prop :=
  ∃ tail, lexemes = first :: tail ∧ Noted ofLine ofName whole before lexemes

variable {ofLine ofName} {p : Rule α} {whole before before' : List β} {lexemes rest : List Lexeme}
  {first : Lexeme} {marks : α → List β} {size : Nat} {expr : Rule Tree}
  {body : Rule (List Statement)}

/-- What has been noted stays so when more lexemes are taken. -/
theorem Noted.suffix (h : Noted ofLine ofName whole before lexemes) (hrest : rest <:+ lexemes) :
    Noted ofLine ofName whole before rest := by
  obtain ⟨taken, rfl⟩ := hrest
  refine List.Sublist.trans ?_ h
  rw [List.flatMap_append]
  exact (List.Sublist.refl before).append (List.sublist_append_right _ _)

theorem takes_noted (hp : p.Takes) :
    p.Ensures (Noted ofLine ofName whole before) fun _ => Noted ofLine ofName whole before :=
  fun _ _ _ _ _ hl heq => hl.suffix (hp _ (List.suffix_refl _) heq)

/-- The first lexeme that is taken has a line to note. -/
theorem consumes_noted (hp : p.Consumes) :
    p.Ensures (Begins ofLine ofName whole before first) fun _ =>
      Noted ofLine ofName whole (before ++ ofLine first.line) := by
  rintro _ rest reach reach' a ⟨tail, rfl, hnoted⟩ heq
  have hsuffix : rest <:+ tail := hp.ensures rfl heq
  refine Noted.suffix ?_ hsuffix
  refine List.Sublist.trans ?_ hnoted
  rw [List.flatMap_cons, marksAt, List.append_assoc, List.append_assoc]
  exact (List.Sublist.refl before).append
    ((List.Sublist.refl _).append (List.sublist_append_right _ _))

theorem current_begins :
    Rule.current.Ensures (Noted ofLine ofName whole before)
      (Begins ofLine ofName whole before) :=
  .current fun _ rest h => ⟨rest, rfl, h⟩

/-- A name is noted where it is read. -/
theorem name_notes : Notes ofLine ofName name ofName := by
  refine fun whole before => .named (.read ?_)
  rintro ⟨token, line, index⟩ rest n hnoted heq
  refine List.Sublist.trans ?_ hnoted
  cases token with
  | ident n =>
    cases heq
    rw [List.flatMap_cons, marksAt, List.append_assoc]
    exact (List.Sublist.refl before).append
      ((List.sublist_append_right _ _).append (List.Sublist.refl _))
  | _ => cases heq

/-- The marks of repeated parts are noted one after the other. -/
theorem repeated_notes {most : Nat} (hp : Notes ofLine ofName p marks) :
    Notes ofLine ofName (repeated p most) fun items => items.flatMap marks := by
  intro whole before
  refine (Ensures.repeated (I := fun items => Noted ofLine ofName whole
    (before ++ items.flatMap marks)) fun items => ?_).conseq (fun _ h => ?_) fun _ _ h => h
  · simpa [List.append_assoc] using hp whole (before ++ items.flatMap marks)
  · simpa using h

theorem block_notes (hbody : Notes ofLine ofName body (Stmt.marksOf ofLine ofName)) :
    Notes ofLine ofName (block body) (Stmt.marksOf ofLine ofName) := fun whole before =>
  .named (.bind (takes_noted (Consumes.symbol _).takes) fun _ => .bind (hbody whole before)
    fun _ => .bind (takes_noted (Consumes.symbol _).takes) fun _ => .pure fun _ h => h)

/-- What is noted of one more arm of a conditional. -/
def armMarks (ofLine : Line → List β) (ofName : String → List β) :
    Line × Tree × List Statement → List β
  | (line, _, statements) => ofLine line ++ Stmt.marksOf ofLine ofName statements

/-- The marks of an arm of a conditional are noted in order. -/
theorem arm_notes (hexpr : expr.Consumes)
    (hbody : Notes ofLine ofName body (Stmt.marksOf ofLine ofName)) :
    Notes ofLine ofName (arm expr body) (armMarks ofLine ofName) := by
  refine fun whole before => .bind current_begins fun lexeme => .bind
    (consumes_noted (.keyword _)) fun _ => .bind (takes_noted hexpr.takes) fun test => .bind
    (block_notes hbody _ _) fun statements => .pure fun _ h => ?_
  simpa [armMarks, List.append_assoc] using h

/-- The marks of a conditional's further arms come one arm after the other, and those of its last
    part behind them. -/
theorem marks_foldr_arm (arms : List (Line × Tree × List Statement)) (final : Otherwise Digits) :
    (arms.foldr (fun (line, test, statements) rest => .arm line test statements rest)
      final).marks ofLine ofName =
      arms.flatMap (armMarks ofLine ofName) ++ final.marks ofLine ofName := by
  induction arms with
  | nil => rfl
  | cons arm rest ih =>
    rw [List.foldr_cons, Otherwise.marks, ih, List.flatMap_cons, armMarks]
    simp only [List.append_assoc]

/-- The marks of what a conditional goes on with are noted in order. -/
theorem otherwise_notes (hexpr : expr.Consumes)
    (hbody : Notes ofLine ofName body (Stmt.marksOf ofLine ofName)) :
    Notes ofLine ofName (otherwise size expr body) (Otherwise.marks ofLine ofName) := by
  refine fun whole before => .bind (repeated_notes (arm_notes hexpr hbody) whole before)
    fun arms => .bind (Q := fun last => Noted ofLine ofName whole (before ++
      arms.flatMap (armMarks ofLine ofName) ++ (last.map (Stmt.marksOf ofLine ofName)).getD []))
    (.optional ?_ ?_) fun last => .pure fun _ h => ?_
  · exact .bind (takes_noted (Consumes.keyword _).takes) fun _ => block_notes hbody _ _
  · exact fun _ h => by simpa using h
  · rw [marks_foldr_arm]
    cases last <;> simpa [Otherwise.marks, List.append_assoc] using h

/-- The mark of an assignment is noted at the lexeme that it begins with. -/
theorem assignment_noted (hexpr : expr.Consumes) :
    (assignment expr first.line).Ensures (Begins ofLine ofName whole before first) fun stmt =>
      Noted ofLine ofName whole (before ++ stmt.marks ofLine ofName) := by
  refine .bind (consumes_noted name_consumes) fun target => .bind
    (takes_noted (subscript_consumes hexpr).takes.optional) fun index => .bind
    (takes_noted (Consumes.symbol _).takes) fun _ => .bind (takes_noted .current) fun next => ?_
  split
  case h_3 =>
    refine .bind (takes_noted hexpr.takes) fun value => .pure fun _ h => ?_
    cases index <;> exact h
  all_goals exact .fail

theorem parameters_takes : (parameters size).Takes :=
  (Consumes.symbol _).takes.bind fun _ => (name_consumes.separated.takes.optional).bind fun _ =>
    (Consumes.symbol _).takes.bind fun _ => .pure _

/-- A statement has its own line from the first lexeme that it takes. -/
theorem statement_notes (hexpr : expr.Consumes)
    (hbody : Notes ofLine ofName body (Stmt.marksOf ofLine ofName)) :
    Notes ofLine ofName (statement size expr body) (Stmt.marks ofLine ofName) := by
  -- The rule looks at the first lexeme, and every kind of statement takes it then.
  refine fun whole before => .bind (.mark fun _ h => h) fun _ => .bind current_begins
    fun lexeme => ?_
  have hkeyword : ∀ k, (keyword k).Ensures (Begins ofLine ofName whole before lexeme) fun _ =>
      Noted ofLine ofName whole (before ++ ofLine lexeme.line) :=
    fun k => consumes_noted (.keyword k)
  have htest : ∀ before, expr.Ensures (Noted ofLine ofName whole before) fun _ =>
      Noted ofLine ofName whole before := fun _ => takes_noted hexpr.takes
  split
  · refine .bind (hkeyword _) fun _ => .bind (htest _) fun test => .bind (block_notes hbody _ _)
      fun statements => .bind (otherwise_notes hexpr hbody _ _) fun rest => .pure fun _ h => ?_
    simpa [Stmt.marks, List.append_assoc] using h
  · refine .bind (hkeyword _) fun _ => .bind (htest _) fun test => .bind (block_notes hbody _ _)
      fun statements => .pure fun _ h => ?_
    simpa [Stmt.marks, List.append_assoc] using h
  · refine .bind (hkeyword _) fun _ => .bind (takes_noted name_consumes.takes) fun var => .bind
      (takes_noted (Consumes.keyword _).takes) fun _ => .bind (htest _) fun iterable => .bind
      (block_notes hbody _ _) fun statements => .pure fun _ h => ?_
    simpa [Stmt.marks, List.append_assoc] using h
  · refine .bind (hkeyword _) fun _ => .bind (name_notes _ _) fun function => .bind
      (takes_noted parameters_takes) fun params => .bind (block_notes hbody _ _)
      fun statements => .pure fun _ h => ?_
    simpa [Stmt.marks, List.append_assoc] using h
  · exact .bind (hkeyword _) fun _ => .bind (takes_noted hexpr.takes.optional) fun value =>
      .pure fun _ h => h
  · exact .bind (hkeyword _) fun _ => .pure fun _ h => h
  · exact .bind (hkeyword _) fun _ => .pure fun _ h => h
  · exact .bind (hkeyword _) fun _ => .pure fun _ h => h
  · exact .orElse (assignment_noted hexpr) (.bind (consumes_noted hexpr) fun value =>
      .pure fun _ h => h)

theorem marksOf_eq_flatMap {ι : Type} (stmts : List (Stmt ι)) :
    Stmt.marksOf ofLine ofName stmts = stmts.flatMap (Stmt.marks ofLine ofName) := by
  induction stmts with
  | nil => rfl
  | cons stmt rest ih => rw [Stmt.marksOf, ih, List.flatMap_cons]

/-- The marks of statements that have been read are noted on their lexemes, in order. -/
theorem statements_notes {one : Rule Statement}
    (hone : Notes ofLine ofName one (Stmt.marks ofLine ofName)) :
    Notes ofLine ofName (statements size one) (Stmt.marksOf ofLine ofName) := by
  have hseparator : separator.Takes := ((Consumes.token _).orElse (.symbol _)).takes
  refine fun whole before => .bind (takes_noted hseparator.repeated) fun _ => .bind
    (Q := fun first => Noted ofLine ofName whole
      (before ++ (first.map (Stmt.marks ofLine ofName)).getD [])) (.optional (hone whole before) ?_)
    fun first => ?_
  · exact fun _ h => by simpa using h
  · cases first with
    | none => exact .pure fun _ h => h
    | some first =>
      have hmore : Notes ofLine ofName (do separator; let _ ← repeated separator size; one)
          (Stmt.marks ofLine ofName) :=
        fun _ _ => .bind (takes_noted hseparator) fun _ => .bind
          (takes_noted hseparator.repeated) fun _ => hone _ _
      -- The separators in between are passed over, and nothing is noted on them.
      refine .bind (repeated_notes hmore _ _) fun rest => .bind
        (takes_noted hseparator.repeated) fun _ => .pure fun _ h => ?_
      simpa [Stmt.marksOf, marksOf_eq_flatMap, List.append_assoc] using h

/-- The marks of a body are noted in order, however deep it is. -/
theorem body_notes (size depth : Nat) :
    Notes ofLine ofName (Grammar.body size depth) (Stmt.marksOf ofLine ofName) := by
  induction depth with
  | zero => exact fun _ _ => .fail
  | succ depth ih => exact statements_notes (statement_notes (expression_consumes _ _) ih)

/-- What is noted of a script that has been read is noted of its lexemes, in their order. -/
theorem script_marks {reach reach' : Nat} {tree : List Statement}
    (h : script size lexemes reach = (some (tree, rest), reach')) :
    (Stmt.marksOf ofLine ofName tree).Sublist (lexemes.flatMap (marksAt ofLine ofName)) := by
  have hnotes : Notes ofLine ofName (script size) (Stmt.marksOf ofLine ofName) :=
    fun _ _ => .bind (body_notes _ _ _ _) fun _ => .bind
      (takes_noted (Consumes.token _).named.takes) fun _ => .pure fun _ h => h
  exact (List.sublist_append_left _ _).trans (hnotes _ [] (List.Sublist.refl _) h)

end Statements

end Linewise.Syntax.Grammar
