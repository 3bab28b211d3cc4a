import Linewise.Proofs.Evaluation.Site

/-!
# Expressions on the machine

The instructions of an expression push what it evaluates to, and touch nothing else of their
frame, provided that calls do what they do in the evaluation (`CallsRealized`).
-/

namespace Linewise

namespace Site

variable {tracked : Prop} {p : Site} {w : World} {fuel : Nat} {line : Line} {instr : Instr}
  {stack : List (Value Code)}

/-- A value has been pushed onto a stack, and the instruction at `finish` follows. -/
def Pushes (tracked : Prop) (p : Site) (finish : Nat) (stack : List (Value Code))
    (v : Value Definition) (w : World) (b : Stage) : Prop :=
  v.IsLegal tracked ∧ w.IsLegal tracked ∧ b = (p.goTo finish (v.code :: stack)).stage w

/-- As many values as there are expressions have been pushed one after the other. -/
def PushesAll (tracked : Prop) (p : Site) (finish : Nat) (items : List (Expr Int64))
    (vs : List (Value Definition)) (w : World) (b : Stage) : Prop :=
  vs.length = items.length ∧ (∀ v ∈ vs, v.IsLegal tracked) ∧ w.IsLegal tracked ∧
    b = (p.goTo finish ((vs.map Value.code).reverse ++ p.stack)).stage w

/-- An instruction that pushes the result of an operation realizes the operation. -/
theorem realizes_onLine {e : Except Cause (Value Definition)} (hline : p.IsOn tracked line)
    (hinstr : p.code.instrs[p.next]? = some instr)
    (hexec : (p.machine w).execute { p.frame with next := p.next + 1 } p.callers p.line instr =
      (p.machine w).pushResult { p.frame with next := p.next + 1 } p.callers p.line stack
        (e.map Value.code))
    (hv : ∀ v, e = .ok v → v.IsLegal tracked) (hw : w.IsLegal tracked) :
    (p.stage w).Realizes tracked fuel (p.Pushes tracked (p.next + 1) stack)
      ((Eval.onLine line e).outcome w) := by
  refine .onLine ?_ ?_
  · rintro v rfl
    have hnext := next?_eq (q := p.goTo (p.next + 1) (v.code :: stack)) hinstr hexec rfl
    exact .step hnext (.pure ⟨hv v rfl, hw, rfl⟩)
  · rintro cause rfl
    exact faultsWith stack hline hinstr hexec

end Site

/-- With room for `room` more frames, a `call` instruction does what a call does in the
    evaluation. -/
def CallsRealized (tracked : Prop) (fuel room : Nat) : Prop :=
  ∀ ⦃p : Site⦄ ⦃w : World⦄ ⦃line : Line⦄ ⦃callee : Value Definition⦄
    ⦃args : List (Value Definition)⦄ ⦃stack : List (Value Code)⦄,
    p.room = room → p.IsLegal tracked → p.IsOn tracked line → w.IsLegal tracked →
    callee.IsLegal tracked → (∀ v ∈ args, v.IsLegal tracked) →
    p.code.instrs[p.next]? = some (.call args.length) →
    p.stack = (args.map Value.code).reverse ++ callee.code :: stack →
    (p.stage w).Realizes tracked fuel (p.Pushes tracked (p.next + 1) stack)
      ((callIn fuel room line callee args).outcome w)

/-- Operands are taken from the stack in the order in which they were pushed. -/
theorem Machine.popMany_eq {m : Machine} {frame : Frame} {callers : List Frame} {line : Line}
    {args stack : List (Value Code)} {use : List (Value Code) → List (Value Code) → Progress}
    (hstack : frame.stack = args.reverse ++ stack) :
    m.popMany frame callers line args.length use = use args stack := by
  simp [popMany, hstack]

mutual

/-- The instructions of an expression realize its evaluation. -/
theorem Expr.realizes_eval {tracked : Prop} {fuel : Nat} {line : Line} : ∀ (e : Expr Int64)
    {p : Site} {w : World}, CallsRealized tracked fuel p.room → p.IsLegal tracked →
    p.IsOn tracked line → w.IsLegal tracked → p.code.Holds p.next (e.emit p.next) →
    (p.stage w).Realizes tracked fuel (p.Pushes tracked (p.next + e.codeSize) p.stack)
      ((e.eval (callIn fuel p.room) p.scope line).outcome w)
  | .int n, _, _, _, _, _, hw, hcode =>
    .step (Site.next?_const hcode.1) (.pure ⟨Value.within_int, hw, rfl⟩)
  | .float x, _, _, _, _, _, hw, hcode =>
    .step (Site.next?_const hcode.1) (.pure ⟨Value.within_float, hw, rfl⟩)
  | .str s, _, _, _, _, _, hw, hcode =>
    .step (Site.next?_const hcode.1) (.pure ⟨Value.within_str, hw, rfl⟩)
  | .bool b, _, _, _, _, _, hw, hcode =>
    .step (Site.next?_const hcode.1) (.pure ⟨Value.within_bool, hw, rfl⟩)
  | .none, _, _, _, _, _, hw, hcode =>
    .step (Site.next?_const hcode.1) (.pure ⟨Value.within_none, hw, rfl⟩)
  | .ident name, p, w, _, hp, hline, hw, hcode => by
    rw [eval, Eval.outcome_bind, Eval.outcome_get]
    dsimp only
    cases hlookup : p.scope.lookup name w with
    | some v =>
      exact .step (Site.next?_load hp hcode.1 hlookup)
        (.pure ⟨Site.lookup_isLegal hp hw hlookup, hw, rfl⟩)
    | none => exact .throw (Site.faultsWith_load hp hline hcode.1 hlookup)
  | .list items, p, w, hcalls, hp, hline, hw, hcode => by
    simp only [emit, Code.holds_append, length_emitAll, Code.holds_cons] at hcode
    obtain ⟨hitems, hinstr, -⟩ := hcode
    refine .bind (Expr.realizes_evalAll items hcalls hp hline hw hitems) ?_
    rintro vs w _ ⟨hlength, hvs, hw, rfl⟩
    -- The instruction takes as many values as there are items, the last one on top.
    refine .step (Site.next?_eq (q := p.goTo (p.next + codeSizeOf items + 1)
      (.list (vs.map Value.code) :: p.stack)) hinstr ?_ rfl) (.pure ⟨by simpa using hvs, hw, ?_⟩)
    · rw [Machine.execute, ← hlength, ← List.length_map (f := Value.code), Machine.popMany_eq rfl]
      rfl
    · rw [Value.code, Value.map, Value.mapItems_eq_map, codeSize, Nat.add_assoc]
  | .subscript object index, p, w, hcalls, hp, hline, hw, hcode => by
    simp only [emit, Code.holds_append, List.length_append, length_emit, Code.holds_cons,
      ← Nat.add_assoc] at hcode
    obtain ⟨⟨hobject, hindex⟩, hinstr, -⟩ := hcode
    rw [codeSize, ← Nat.add_assoc, ← Nat.add_assoc]
    refine .bind (Expr.realizes_eval object hcalls hp hline hw hobject) ?_
    rintro v w _ ⟨hv, hw, rfl⟩
    refine .bind (Expr.realizes_eval index (p := p.goTo _ _) hcalls (hp.goTo _ _) hline hw
      hindex) ?_
    rintro i w _ ⟨hi, hw, rfl⟩
    refine Site.realizes_onLine (p := p.goTo _ _) hline hinstr ?_
      (fun _ => Value.within_subscript hv hi) hw
    rw [← Value.subscript_map]
    rfl
  | .call callee args, p, w, hcalls, hp, hline, hw, hcode => by
    simp only [emit, Code.holds_append, List.length_append, length_emit, length_emitAll,
      Code.holds_cons, ← Nat.add_assoc] at hcode
    obtain ⟨⟨hcallee, hargs⟩, hinstr, -⟩ := hcode
    rw [codeSize, ← Nat.add_assoc, ← Nat.add_assoc]
    refine .bind (Expr.realizes_eval callee hcalls hp hline hw hcallee) ?_
    rintro f w _ ⟨hf, hw, rfl⟩
    refine .bind (Expr.realizes_evalAll args (p := p.goTo _ _) hcalls (hp.goTo _ _) hline hw
      hargs) ?_
    rintro vs w _ ⟨hlength, hvs, hw, rfl⟩
    exact @hcalls (p.goTo _ _) _ _ _ _ _ rfl (hp.goTo _ _) hline hw hf hvs (hlength ▸ hinstr) rfl
  | .unary op operand, p, w, hcalls, hp, hline, hw, hcode => by
    simp only [emit, Code.holds_append, length_emit, Code.holds_cons] at hcode
    obtain ⟨hoperand, hinstr, -⟩ := hcode
    refine .bind (Expr.realizes_eval operand hcalls hp hline hw hoperand) ?_
    rintro v w _ ⟨hv, hw, rfl⟩
    refine Site.realizes_onLine (p := p.goTo _ _) hline hinstr ?_
      (fun _ => Value.within_applyUnary hv) hw
    rw [← Value.applyUnary_map]
    rfl
  | .binary op left right, p, w, hcalls, hp, hline, hw, hcode => by
    simp only [emit, Code.holds_append, List.length_append, length_emit, Code.holds_cons,
      ← Nat.add_assoc] at hcode
    obtain ⟨⟨hleft, hright⟩, hinstr, -⟩ := hcode
    rw [codeSize, ← Nat.add_assoc, ← Nat.add_assoc]
    refine .bind (Expr.realizes_eval left hcalls hp hline hw hleft) ?_
    rintro v w _ ⟨hv, hw, rfl⟩
    refine .bind (Expr.realizes_eval right (p := p.goTo _ _) hcalls (hp.goTo _ _) hline hw
      hright) ?_
    rintro v' w _ ⟨hv', hw, rfl⟩
    refine Site.realizes_onLine (p := p.goTo _ _) hline hinstr ?_
      (fun _ => Value.within_applyBinary hv hv') hw
    rw [← Value.applyBinary_map keepsHandles_code]
    rfl
  | .logic op left right, p, w, hcalls, hp, hline, hw, hcode => by
    simp only [emit, Code.holds_append, length_emit, Code.holds_cons] at hcode
    obtain ⟨hleft, hjump, hright⟩ := hcode
    rw [codeSize, ← Nat.add_assoc, ← Nat.add_assoc]
    refine .bind (Expr.realizes_eval left hcalls hp hline hw hleft) ?_
    rintro v w _ ⟨hv, hw, rfl⟩
    -- An operand that decides stays on the stack, and the jump skips the other one.
    refine .step (Site.next?_logicJump (p := p.goTo _ _) hjump rfl) ?_
    by_cases hdecided : op.decidedBy v = true
    · rw [if_pos hdecided, if_pos hdecided]
      exact .pure ⟨hv, hw, rfl⟩
    · rw [if_neg hdecided, if_neg hdecided]
      exact Expr.realizes_eval right (p := p.goTo _ _) hcalls (hp.goTo _ _) hline hw hright

/-- The instructions of expressions realize the evaluation of one after the other. -/
theorem Expr.realizes_evalAll {tracked : Prop} {fuel : Nat} {line : Line} :
    ∀ (items : List (Expr Int64)) {p : Site} {w : World}, CallsRealized tracked fuel p.room →
    p.IsLegal tracked → p.IsOn tracked line → w.IsLegal tracked →
    p.code.Holds p.next (Expr.emitAll p.next items) →
    (p.stage w).Realizes tracked fuel
      (p.PushesAll tracked (p.next + Expr.codeSizeOf items) items)
      ((Expr.evalAll (callIn fuel p.room) p.scope line items).outcome w)
  | [], _, _, _, _, _, hw, _ => .pure ⟨rfl, by simp, hw, rfl⟩
  | item :: rest, p, w, hcalls, hp, hline, hw, hcode => by
    simp only [emitAll, Code.holds_append, length_emit] at hcode
    obtain ⟨hitem, hrest⟩ := hcode
    rw [codeSizeOf, ← Nat.add_assoc]
    refine .bind (Expr.realizes_eval item hcalls hp hline hw hitem) ?_
    rintro v w _ ⟨hv, hw, rfl⟩
    refine .bind (Expr.realizes_evalAll rest (p := p.goTo _ _) hcalls (hp.goTo _ _) hline hw
      hrest) ?_
    rintro vs w _ ⟨hlength, hvs, hw, rfl⟩
    exact .pure ⟨by simp [hlength], by simpa using ⟨hv, hvs⟩, hw, by simp [Site.goTo]⟩

end

end Linewise
