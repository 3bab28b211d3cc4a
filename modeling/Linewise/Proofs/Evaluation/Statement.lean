import Linewise.Proofs.Evaluation.Ending

/-!
# Statements on the machine

The instructions of a legal body realize its evaluation, in whatever loop and function it stands.

The line of the frame is part of what has to be shown where lines are tracked: a fault has it, and a
statement on the line of the code before it has no `line` instruction of its own. So the frame is
on the line of a statement when the statement begins. In a body this holds for the next statement
too, as lines do not descend: either the frame is still on the line of the statement before, or on a
later one, and then the next statement is not on the line of the statement before.
-/

namespace Linewise

/-- A loop over a value goes through the items that the machine opens the loop with. -/
theorem Stmt.exec_forLoop (call : Caller) (fuel : Nat) (line : Line) (var : String)
    (iterable : Expr Int64) (body : List (Stmt Int64)) (scope : Scope) :
    Stmt.exec call fuel (.forLoop line var iterable body) scope = (do
      let v ← iterable.eval call scope line
      let items ← Eval.onLine line v.iterate
      repeatFor var (fun scope => Stmt.execAll call fuel body scope) items scope) := by
  rw [Stmt.exec]
  congr
  funext v
  cases v <;> rfl

/-- What is around statements in a scope and a loop. -/
def Site.around (p : Site) (loop : Option Loop) : Surroundings := ⟨p.scope.isSome, loop.isSome⟩

namespace Site

variable {tracked : Prop} {p : Site} {w : World} {fuel next last finish : Nat} {line : Line}
  {test : Expr Int64} {loop : Option Loop} {body otherwise : Eval (Exit × Scope)}

/-- The `line` instruction before a statement, if there is one. If not, the frame stays on the line
    that it is on, which is the line of the statement where lines are tracked. -/
theorem realizes_line {α : Type} {before : Line} {ends : α → World → Stage → Prop}
    {r : Option (Except Fault α × World)} (hline : tracked → p.line = before ∨ line ≠ before)
    (hcode : p.code.Holds p.next (emitLine before line))
    (h : ∀ current, current = p.line ∨ current = line → (tracked → current = line) →
      (({ p with line := current, next := p.next + lineSize before line } : Site).stage w).Realizes
        tracked fuel ends r) : (p.stage w).Realizes tracked fuel ends r := by
  rw [emitLine] at hcode
  rw [lineSize] at h
  by_cases heq : line = before
  · rw [if_pos heq] at h
    refine h p.line (.inl rfl) fun htracked => ?_
    exact ((hline htracked).resolve_right (· heq)).trans heq.symm
  · rw [if_neg heq] at hcode h
    exact .step (next?_line hcode.1) (h line (.inr rfl) fun _ => rfl)

/-- A test, with the conditional jump after it. -/
theorem realizes_test (hcalls : CallsRealized tracked fuel p.room) (hp : p.IsLegal tracked)
    (hline : p.IsOn tracked line) (hw : w.IsLegal tracked)
    (hcode : p.code.Holds p.next (test.emit p.next))
    (hjump : p.code.instrs[p.next + test.codeSize]? = some (.jumpIfFalse next)) :
    (p.stage w).Realizes tracked fuel
      (fun v w b => w.IsLegal tracked ∧ b = (p.goTo (if v.isTruthy then
        p.next + test.codeSize + 1 else next) p.stack).stage w)
      ((test.eval (callIn fuel p.room) p.scope line).outcome w) := by
  refine .extend (test.realizes_eval hcalls hp hline hw hcode) ?_
  rintro v w _ ⟨-, hw, rfl⟩
  exact .step (next?_jumpIfFalse (p := p.goTo _ _) hjump rfl) (.pure ⟨hw, rfl⟩)

/-- An arm of a conditional: its test and its body, after which all that may follow the test when
    it fails is skipped. -/
theorem realizes_arm (lines : List Line) {stmts : List (Stmt Int64)} {rest : Otherwise Int64}
    (hcalls : CallsRealized tracked fuel p.room) (hp : p.IsLegal tracked)
    (hline : p.IsOn tracked line) (hw : w.IsLegal tracked)
    (harm : p.code.HoldsArm loop line test stmts rest p.next next finish)
    (hbody : ∀ {w : World}, w.IsLegal tracked →
      ((p.goTo (p.next + test.codeSize + 1) p.stack).stage w).Realizes tracked fuel
        (p.Ends tracked loop (p.next + test.codeSize + 1 +
          Stmt.codeSizeOf (loop.map Loop.kind) line stmts) lines) (body.outcome w))
    (hotherwise : ∀ {w : World}, w.IsLegal tracked →
      ((p.goTo next p.stack).stage w).Realizes tracked fuel (p.Ends tracked loop finish lines)
        (otherwise.outcome w)) :
    (p.stage w).Realizes tracked fuel (p.Ends tracked loop finish lines)
      ((do
        let v ← test.eval (callIn fuel p.room) p.scope line
        if v.isTruthy then body else otherwise).outcome w) := by
  refine .bind (realizes_test hcalls hp hline hw harm.holdsTest harm.atJump) ?_
  rintro v w _ ⟨hw, rfl⟩
  by_cases htruthy : v.isTruthy = true
  · rw [if_pos htruthy, if_pos htruthy]
    -- Only a body that ends by itself comes to the jump after it.
    refine .extend (hbody hw) ?_
    rintro ⟨exit, scope⟩ w b hends
    cases exit with
    | through =>
      obtain ⟨hscope, hisSome, hw, line, hline, rfl⟩ := hends
      exact .step (next?_jump harm.atLast) (.pure ⟨hscope, hisSome, hw, line, hline, rfl⟩)
    | _ => exact .pure (hends.of_ne_through nofun)
  · rw [if_neg htruthy, if_neg htruthy]
    exact hotherwise hw

end Site

mutual

/-- The instructions of a statement realize it, when the frame is on its line. -/
theorem Stmt.realizes_exec {tracked : Prop} {fuel : Nat} : ∀ (stmt : Stmt Int64) {p : Site}
    {w : World} {loop : Option Loop}, CallsRealized tracked fuel p.room → p.IsLegal tracked →
    w.IsLegal tracked → Legal (p.around loop) [stmt] → (tracked → Ascending [stmt]) →
    p.IsOn tracked stmt.line → p.code.Holds p.next (stmt.emit loop p.next) →
    (p.stage w).Realizes tracked fuel
      (p.Ends tracked loop (p.next + stmt.codeSize (loop.map Loop.kind)) stmt.lines)
      ((stmt.exec (callIn fuel p.room) fuel p.scope).outcome w)
  | .expr line value, p, w, loop, hcalls, hp, hw, _, _, hline, hcode => by
    simp only [Stmt.emit, Code.holds_append, Expr.length_emit, Code.holds_cons] at hcode
    obtain ⟨hvalue, hpop, -⟩ := hcode
    refine .bind (value.realizes_eval hcalls hp hline hw hvalue) ?_
    rintro v w _ ⟨-, hw, rfl⟩
    exact .step (Site.next?_pop (p := p.goTo _ _) hpop rfl)
      (.pure ⟨hp.scope, rfl, hw, _, .inl rfl, rfl⟩)
  | .assign line name value, p, w, loop, hcalls, hp, hw, _, _, hline, hcode => by
    simp only [Stmt.emit, Code.holds_append, Expr.length_emit, Code.holds_cons] at hcode
    obtain ⟨hvalue, hstore, -⟩ := hcode
    refine .bind (value.realizes_eval hcalls hp hline hw hvalue) ?_
    rintro v w _ ⟨hv, hw, rfl⟩
    refine .bind (Site.realizes_assign (p := p.goTo _ _) hstore rfl (hp.goTo _ _) hw hv) ?_
    rintro scope w _ ⟨hscope, hisSome, hw, rfl⟩
    exact .pure ⟨hscope, hisSome, hw, _, .inl rfl, rfl⟩
  | .assignItem line name index value, p, w, loop, hcalls, hp, hw, _, _, hline, hcode => by
    simp only [Stmt.emit, Code.holds_append, List.length_append, Expr.length_emit, Code.holds_cons,
      ← Nat.add_assoc] at hcode
    obtain ⟨⟨hindex, hvalue⟩, hstore, -⟩ := hcode
    rw [Stmt.codeSize, ← Nat.add_assoc, ← Nat.add_assoc]
    refine .bind (index.realizes_eval hcalls hp hline hw hindex) ?_
    rintro i w _ ⟨hi, hw, rfl⟩
    refine .bind (value.realizes_eval (p := p.goTo _ _) hcalls (hp.goTo _ _) hline hw hvalue) ?_
    rintro v w _ ⟨hv, hw, rfl⟩
    refine .bind (Site.realizes_assignItem (p := p.goTo _ _) hline hstore rfl (hp.goTo _ _) hw hi
      hv) ?_
    rintro scope w _ ⟨hscope, hisSome, hw, rfl⟩
    exact .pure ⟨hscope, hisSome, hw, _, .inl rfl, rfl⟩
  | .branch line test body otherwise, p, w, loop, hcalls, hp, hw, hlegal, hascends, hline,
      hcode => by
    obtain ⟨next, finish, harm, hfinish, heq⟩ := hcode.branch
    rw [← heq]
    refine Site.realizes_arm _ hcalls hp hline hw harm ?_ ?_
    · intro w hw
      refine .imp ?_ (Stmt.realizes_execAll body (p := p.goTo _ p.stack) hcalls (hp.goTo _ _) hw
        hlegal.branch_body (fun h => (hascends h).branch_body) (fun h => .inl (hline h))
        harm.holdsBody)
      exact fun _ _ _ hends => hends.of_later rfl (.inl rfl) (by simp [Stmt.marks])
    · intro w hw
      refine .imp ?_ (Otherwise.realizes_exec otherwise (p := p.goTo _ p.stack) hcalls
        (hp.goTo _ _) hw hlegal.branch_otherwise (fun h => (hascends h).branch_otherwise)
        harm.holdsOtherwise hfinish)
      exact fun _ _ _ hends => hends.of_later rfl (.inl rfl) (by simp [Stmt.marks])
  | .whileLoop line test body, p, w, loop, hcalls, hp, hw, hlegal, hascends, hline, hcode => by
    obtain ⟨exit, hjump, hloop, heq⟩ := hcode.whileLoop
    rw [← heq]
    refine .step (Site.next?_jump hjump) ?_
    refine Site.realizes_repeatWhile (p.next + 1 + 1 + test.codeSize + 1) List.mem_cons_self
      hloop.atHead hloop.atLast ?_ ?_ (Nat.le_refl fuel) hp.scope rfl (.inl rfl) hline hw
    · intro scope current w hscope hisSome hcurrent hw
      refine .bind (Site.realizes_test
        (p := { p with scope, line := current, next := p.next + 1 + 1 }) hcalls
        ⟨hp.isModule_eq hisSome, hscope⟩ hcurrent hw hloop.holdsTest hloop.atJump) ?_
      rintro v w _ ⟨hw, rfl⟩
      exact .pure ⟨hw, rfl⟩
    · intro scope current w hscope hisSome hcurrent hw
      refine .imp ?_ (Stmt.realizes_execAll body
        (p := { p with scope, line := current, next := p.next + 1 + 1 + test.codeSize + 1 })
        hcalls ⟨hp.isModule_eq hisSome, hscope⟩ hw ?_ (fun h => (hascends h).while_body)
        (fun h => .inl (hcurrent h)) hloop.holdsBody)
      · exact fun _ _ _ hends => hends.of_later
          (p := { p with scope, line := current, next := _ }) rfl (.inl rfl) (by simp)
      · rw [Site.around, hisSome]
        exact hlegal.while_body
  | .forLoop line var iterable body, p, w, loop, hcalls, hp, hw, hlegal, hascends, hline,
      hcode => by
    obtain ⟨head, exit, hiterable, hstart, hjump, hhead, hloop, heq⟩ := hcode.forLoop
    rw [← heq, Stmt.exec_forLoop]
    refine .bind (iterable.realizes_eval hcalls hp hline hw hiterable) ?_
    rintro v w _ ⟨hv, hw, rfl⟩
    have hexec := Site.execute_iterStart (w := w)
      (p := p.goTo (p.next + iterable.codeSize) (v.code :: p.stack)) rfl
    refine .onLine_bind ?_ ?_
    · intro items hitems
      rw [hitems] at hexec
      refine .step (Site.next?_eq (q := { p with
        next := p.next + iterable.codeSize + 1,
        loops := ⟨0, items.map Value.code⟩ :: p.loops }) hstart hexec rfl) ?_
      refine .step (Site.next?_jump hjump) ?_
      refine Site.realizes_repeatFor List.mem_cons_self hloop.atHead hloop.atNext hloop.atStore
        hloop.atLast hp ?_ (Value.within_iterate hv hitems) hp.scope rfl (.inl rfl) hline hw
      intro scope current opened w hscope hisSome hcurrent hw
      refine .imp ?_ (Stmt.realizes_execAll body
        (p := { p with scope, line := current, loops := opened :: p.loops, next := head + 3 })
        hcalls ⟨hp.isModule_eq hisSome, hscope⟩ hw ?_ (fun h => (hascends h).for_body)
        (fun h => .inl (hcurrent h)) hloop.holdsBody)
      · exact fun _ _ _ hends => hends.of_later
          (p := { p with scope, line := current, loops := opened :: p.loops, next := _ }) rfl
          (.inl rfl) (by simp)
      · rw [Site.around, hisSome]
        exact hlegal.for_body
    · intro cause hcause
      rw [hcause] at hexec
      exact Site.faultsWith p.stack hline hstart hexec
  | .define line name params body ident, p, w, loop, _, hp, hw, hlegal, hascends, _, hcode => by
    obtain ⟨hmake, hstore, -⟩ := hcode
    have hdefinition : Definition.IsLegal tracked ⟨line, name, params, body, ident⟩ :=
      ⟨hlegal.define_body, fun h => (hascends h).define_body, hlegal.define_name⟩
    refine .step (Site.next?_eq (q := p.goTo (p.next + 1) (.function _ :: p.stack)) hmake rfl rfl)
      ?_
    refine .bind (Site.realizes_assign (p := p.goTo _ _) hstore rfl (hp.goTo _ _) hw
      (Value.within_function.2 hdefinition)) ?_
    rintro scope w _ ⟨hscope, hisSome, hw, rfl⟩
    exact .pure ⟨hscope, hisSome, hw, _, .inl rfl, rfl⟩
  | .leave line none, p, w, loop, _, hp, hw, hlegal, _, _, hcode => by
    obtain ⟨hconst, hleave, -⟩ := hcode
    -- Legal statements leave nothing but functions, where the scope has bindings of its own.
    have hplaced := hlegal.leave
    exact .step (Site.next?_const hconst) (.pure ⟨hp.scope, rfl, hw, _, .inl rfl,
      Value.within_none, hplaced, _, _, _, hleave, rfl⟩)
  | .leave line (some value), p, w, loop, hcalls, hp, hw, hlegal, _, hline, hcode => by
    simp only [Stmt.emit, Code.holds_append, Expr.length_emit, Code.holds_cons] at hcode
    obtain ⟨hvalue, hleave, -⟩ := hcode
    have hplaced := hlegal.leave
    refine .bind (value.realizes_eval hcalls hp hline hw hvalue) ?_
    rintro v w _ ⟨hv, hw, rfl⟩
    exact .pure ⟨hp.scope, rfl, hw, _, .inl rfl, hv, hplaced, _, _, _, hleave, rfl⟩
  | .breakLoop line, p, w, loop, _, hp, hw, hlegal, _, _, hcode => by
    obtain ⟨l, rfl⟩ := Option.isSome_iff_exists.1 hlegal.breakLoop
    obtain ⟨kind, head, exit⟩ := l
    cases kind with
    | testing =>
      exact .step (Site.next?_jump hcode.1) (.pure ⟨hp.scope, rfl, hw, _, .inl rfl, _, rfl, rfl⟩)
    | iterating =>
      -- The iterator is closed before the jump, as the end of the loop does not do it.
      exact .step (Site.next?_iterDrop hcode.1) (.step (Site.next?_jump hcode.2.1)
        (.pure ⟨hp.scope, rfl, hw, _, .inl rfl, _, rfl, rfl⟩))
  | .continueLoop line, p, w, loop, _, hp, hw, hlegal, _, _, hcode => by
    obtain ⟨l, rfl⟩ := Option.isSome_iff_exists.1 hlegal.continueLoop
    exact .step (Site.next?_jump hcode.1) (.pure ⟨hp.scope, rfl, hw, _, .inl rfl, _, rfl, rfl⟩)
  | .pass line, p, w, loop, _, hp, hw, _, _, _, _ =>
    .pure ⟨hp.scope, rfl, hw, _, .inl rfl, rfl⟩

/-- The instructions of the arms of a conditional realize them, wherever the frame is. -/
theorem Otherwise.realizes_exec {tracked : Prop} {fuel : Nat} : ∀ (otherwise : Otherwise Int64)
    {p : Site} {w : World} {loop : Option Loop} {finish : Nat},
    CallsRealized tracked fuel p.room → p.IsLegal tracked → w.IsLegal tracked →
    Legal (p.around loop) otherwise.toStmts → (tracked → Ascending otherwise.toStmts) →
    p.code.Holds p.next (otherwise.emit loop finish p.next) →
    finish = p.next + otherwise.codeSize (loop.map Loop.kind) →
    (p.stage w).Realizes tracked fuel (p.Ends tracked loop finish otherwise.lines)
      ((otherwise.exec (callIn fuel p.room) fuel p.scope).outcome w)
  | .nothing, p, w, loop, finish, _, hp, hw, _, _, _, hfinish =>
    .pure ⟨hp.scope, rfl, hw, _, .inl rfl, by rw [hfinish]; rfl⟩
  | .body body, p, w, loop, finish, hcalls, hp, hw, hlegal, hascends, hcode, hfinish => by
    rw [hfinish]
    -- The body is emitted as if line zero came before it, so its first statement has a mark.
    exact Stmt.realizes_execAll body hcalls hp hw hlegal hascends
      (fun h => .inr (hascends h).ne_zero) hcode
  | .arm line test body otherwise, p, w, loop, finish, hcalls, hp, hw, hlegal, hascends, hcode,
      hfinish => by
    obtain ⟨next, hline, harm, heq⟩ := hcode.arm
    refine .step (Site.next?_line hline) (.imp ?_ (Site.realizes_arm
      (p := { p with line, next := p.next + 1 }) (Otherwise.arm line test body otherwise).lines
      hcalls ⟨hp.isModule, hp.scope⟩ (fun _ => rfl) hw harm ?_ ?_))
    · exact fun _ _ _ hends => hends.of_later (p := p) rfl (.inr (by simp [Otherwise.marks]))
        (List.Subset.refl _)
    · intro w hw
      refine .imp ?_ (Stmt.realizes_execAll body (p := { p with line, next := _ }) hcalls
        ⟨hp.isModule, hp.scope⟩ hw hlegal.branch_body (fun h => (hascends h).branch_body)
        (fun _ => .inl rfl) harm.holdsBody)
      exact fun _ _ _ hends => hends.of_later (p := { p with line, next := _ }) rfl (.inl rfl)
        (by simp [Otherwise.marks])
    · intro w hw
      refine .imp ?_ (Otherwise.realizes_exec otherwise (p := { p with line, next }) hcalls
        ⟨hp.isModule, hp.scope⟩ hw hlegal.branch_otherwise
        (fun h => (hascends h).branch_otherwise) harm.holdsOtherwise (hfinish.trans heq.symm))
      exact fun _ _ _ hends => hends.of_later (p := { p with line, next := _ }) rfl (.inl rfl)
        (by simp [Otherwise.marks])

/-- The instructions of a body after code of the line `before` realize it, when the frame is on
    that line or the body is not. -/
theorem Stmt.realizes_execAll {tracked : Prop} {fuel : Nat} : ∀ (stmts : List (Stmt Int64))
    {p : Site} {w : World} {loop : Option Loop} {before : Line},
    CallsRealized tracked fuel p.room → p.IsLegal tracked → w.IsLegal tracked →
    Legal (p.around loop) stmts → (tracked → Ascending stmts) →
    (tracked → p.line = before ∨ ∀ l ∈ Stmt.linesOf stmts, l ≠ before) →
    p.code.Holds p.next (Stmt.emitAll loop before p.next stmts) →
    (p.stage w).Realizes tracked fuel
      (p.Ends tracked loop (p.next + Stmt.codeSizeOf (loop.map Loop.kind) before stmts)
        (Stmt.linesOf stmts))
      ((Stmt.execAll (callIn fuel p.room) fuel stmts p.scope).outcome w)
  | [], p, w, loop, _, _, hp, hw, _, _, _, _ => .pure ⟨hp.scope, rfl, hw, _, .inl rfl, rfl⟩
  | stmt :: rest, p, w, loop, before, hcalls, hp, hw, hlegal, hascends, hline, hcode => by
    simp only [Stmt.emitAll, Code.holds_append, List.length_append, length_emitLine,
      Stmt.length_emit, ← Nat.add_assoc] at hcode
    obtain ⟨⟨hemitLine, hstmt⟩, hrest⟩ := hcode
    simp only [Stmt.codeSizeOf, ← Nat.add_assoc]
    have hbefore : tracked → p.line = before ∨ stmt.line ≠ before := fun h =>
      (hline h).imp_right fun hne => hne _ (List.mem_append_left _ stmt.line_mem_lines)
    refine Site.realizes_line hbefore hemitLine fun current hcurrent hon => ?_
    refine .bind (Stmt.realizes_exec stmt (p := { p with line := current, next := _ }) hcalls
      ⟨hp.isModule, hp.scope⟩ hw hlegal.head (fun h => (hascends h).head) hon hstmt) ?_
    -- The frame is on the line that it came with, or on one of the statement.
    have hlines : current = p.line ∨ current ∈ Stmt.linesOf (stmt :: rest) := by
      rcases hcurrent with heq | rfl
      · exact .inl heq
      · exact .inr (List.mem_append_left _ stmt.line_mem_lines)
    rintro ⟨exit, scope⟩ w b hends
    cases exit with
    | through =>
      -- If the frame is not on the first line of the statement any more, the rest has left that
      -- line behind.
      obtain ⟨hscope, hisSome, hw, line, hline, rfl⟩ := hends
      have hmem : tracked → line ∈ stmt.lines := fun h =>
        hline.elim (fun heq => (heq.trans (hon h)) ▸ stmt.line_mem_lines) id
      refine .imp ?_ (Stmt.realizes_execAll rest (p := { p with scope, line, next := _ }) hcalls
        ⟨hp.isModule_eq hisSome, hscope⟩ hw ?_ (fun h => (hascends h).tail)
        (fun h => (hascends h).eq_line_or (hmem h)) hrest)
      · refine fun _ _ _ hends => hends.of_later hisSome ?_ (List.subset_append_right _ _)
        rcases hline with rfl | hline
        · exact hlines
        · exact .inr (List.mem_append_left _ hline)
      · rw [Site.around, hisSome]
        exact hlegal.tail
    | _ =>
      exact .pure ((hends.of_later rfl hlines (List.subset_append_left _ _)).of_ne_through nofun)

end

end Linewise
