import Linewise.Proofs.Evaluation.Expression
import Linewise.Proofs.Machine.Step

/-!
# How statements end on the machine

Statements may end in four ways (`Exit`), and on the machine each leads to a place of its own
(`Site.Ends`): to the instruction after them, to the end or the head of the innermost loop, or to
a `leave` instruction. A break out of a loop over items closes its iterator on the way.

The loops are realized here for any test and any body that are.
-/

namespace Linewise

/-- The open loops of a frame after the innermost loop has been left by a `break`. -/
def LoopKind.close : LoopKind → List OpenLoop → List OpenLoop
  | testing, loops => loops
  | iterating, loops => loops.tail

namespace Site

variable {tracked : Prop} {p q : Site} {w : World} {b : Stage} {loop : Option Loop}
  {fuel finish finish' : Nat}
  {lines lines' : List Line} {scope : Scope} {line : Line} {exit : Exit} {r : Exit × Scope}
  {stack : List (Value Code)} {name : String} {v : Value Definition}

/-- Where statements lead to that end in a given way, in the loop around them and with the
    instruction at `finish` after them. -/
def LeadsTo (tracked : Prop) (p : Site) (loop : Option Loop) (finish : Nat) (w : World) :
    Exit → Stage → Prop
  | .through, b => b = (p.goTo finish p.stack).stage w
  | .breaks, b => ∃ l, loop = some l ∧
    b = ({ p with next := l.exit, loops := l.kind.close p.loops } : Site).stage w
  | .continues, b => ∃ l, loop = some l ∧ b = (p.goTo l.head p.stack).stage w
  | .leaves v, b => v.IsLegal tracked ∧ p.scope.isSome ∧ ∃ next loops stack,
    p.code.instrs[next]? = some .leave ∧
      b = ({ p with next, loops, stack := v.code :: stack } : Site).stage w

/-- Statements have ended that hold the given lines. The frame is on one of these, or still on
    the line that it was on before. -/
def Ends (tracked : Prop) (p : Site) (loop : Option Loop) (finish : Nat) (lines : List Line)
    (r : Exit × Scope) (w : World) (b : Stage) : Prop :=
  r.2.IsLegal tracked ∧ r.2.isSome = p.scope.isSome ∧ w.IsLegal tracked ∧
    ∃ line, (line = p.line ∨ line ∈ lines) ∧
      ({ p with scope := r.2, line } : Site).LeadsTo tracked loop finish w r.1 b

/-- What ends later on is at an end for what began earlier. -/
theorem Ends.of_later {next : Nat} (h : ({ p with scope, line, next } : Site).Ends tracked loop
    finish lines r w b) (hscope : scope.isSome = p.scope.isSome)
    (hline : line = p.line ∨ line ∈ lines') (hlines : lines ⊆ lines') :
    p.Ends tracked loop finish lines' r w b := by
  obtain ⟨exit, scope'⟩ := r
  obtain ⟨hlegal, hisSome, hw, line', hline', hleads⟩ := h
  refine ⟨hlegal, hisSome.trans hscope, hw, line', ?_, by cases exit <;> exact hleads⟩
  rcases hline' with rfl | hline'
  · exact hline
  · exact .inr (hlines hline')

/-- Only the end of the last statement depends on what follows. -/
theorem Ends.of_ne_through (h : p.Ends tracked loop finish lines r w b) (hr : r.1 ≠ .through) :
    p.Ends tracked loop finish' lines r w b := by
  obtain ⟨exit, scope⟩ := r
  obtain ⟨hlegal, hisSome, hw, line, hline, hleads⟩ := h
  refine ⟨hlegal, hisSome, hw, line, hline, ?_⟩
  cases exit with
  | through => exact absurd rfl hr
  | _ => exact hleads

/-! ## Assignments -/

/-- An assignment has been made, and the next instruction follows. -/
def Binds (tracked : Prop) (p : Site) (stack : List (Value Code)) (scope : Scope) (w : World)
    (b : Stage) : Prop :=
  scope.IsLegal tracked ∧ scope.isSome = p.scope.isSome ∧ w.IsLegal tracked ∧
    b = ({ p with scope, next := p.next + 1, stack } : Site).stage w

/-- The instruction that binds a name does what an assignment does in the evaluation. -/
theorem realizes_assign (hinstr : p.code.instrs[p.next]? = some (.store name))
    (hstack : p.stack = v.code :: stack) (hp : p.IsLegal tracked) (hw : w.IsLegal tracked)
    (hv : v.IsLegal tracked) :
    (p.stage w).Realizes tracked fuel (p.Binds tracked stack)
      ((p.scope.assign name v).outcome w) := by
  obtain ⟨code, callers, maxDepth, scope, line, loops, next, _⟩ := p
  obtain ⟨hmodule, hscope⟩ := hp
  dsimp only at hinstr hstack hmodule hscope ⊢
  subst hstack
  cases scope with
  | none =>
    -- Outside of functions the name is bound globally, so the world changes.
    let q : Site := ⟨code, callers, maxDepth, none, line, loops, next + 1, stack⟩
    have hnext : (stage ⟨code, callers, maxDepth, none, line, loops, next, v.code :: stack⟩
        w).next? = some (q.stage ⟨w.globals.insert name v, w.printed⟩) := by
      refine next?_eq hinstr ?_ rfl
      simp [q, Machine.execute, Machine.pop, frame, machine, Machine.assignmentHome, hmodule,
        Machine.bindAt]
    exact .step hnext (.pure ⟨hscope, rfl, hw.insert hv, rfl⟩)
  | some locals =>
    -- In a function it is bound locally, so the site changes.
    let q : Site :=
      ⟨code, callers, maxDepth, some (locals.insert name v), line, loops, next + 1, stack⟩
    have hnext : (stage ⟨code, callers, maxDepth, some locals, line, loops, next, v.code :: stack⟩
        w).next? = some (q.stage w) := by
      refine next?_eq hinstr ?_ rfl
      simp [q, Machine.execute, Machine.pop, frame, machine, Machine.assignmentHome, hmodule,
        Machine.bindAt]
    refine .step hnext (.pure ⟨?_, rfl, hw, rfl⟩)
    rintro _ ⟨⟩
    exact (hscope locals rfl).insert hv

/-- The replacement of an item of what a name is bound to is realized where the binding of the
    result is. -/
theorem realizes_replaceAt {home : Machine.Home} {i container : Value Definition}
    {f : Value Definition → Eval Scope} (hline : p.IsOn tracked line)
    (hinstr : p.code.instrs[p.next]? = some (.storeIndex name))
    (hstack : p.stack = v.code :: i.code :: stack)
    (hresolve : (p.machine w).resolve? { p.frame with next := p.next + 1 } name =
      some (home, container.code))
    (hok : ∀ updated, container.replaceAt i v = .ok updated → ∃ (q : Site) (w' : World),
      w'.printed = w.printed ∧
      (p.machine w).bindAt { p.frame with next := p.next + 1, stack } p.callers home name
        updated.code = q.machine w' ∧
      (q.stage w').Realizes tracked fuel (p.Binds tracked stack) ((f updated).outcome w)) :
    (p.stage w).Realizes tracked fuel (p.Binds tracked stack)
      ((Eval.onLine line (container.replaceAt i v) >>= f).outcome w) := by
  -- The replacement gives the same for codes as for definitions; what becomes of the list is for
  -- `hok` to say.
  refine .onLine_bind ?_ ?_
  · intro updated hupdated
    obtain ⟨q, w', hprinted, hbind, hq⟩ := hok updated hupdated
    have hcode : container.code.replaceAt i.code v.code = .ok updated.code := by
      rw [Value.replaceAt_map, hupdated, Except.map]
    refine .step (next?_eq hinstr ?_ hprinted) hq
    rw [← hbind, Machine.execute, Machine.popTwo]
    simp only [frame, hstack] at hresolve ⊢
    simp only [Machine.storeItem_eq, hresolve, hcode]
  · intro cause hcause
    have hcode : container.code.replaceAt i.code v.code = .error cause := by
      rw [Value.replaceAt_map, hcause, Except.map]
    refine faultsWith stack hline hinstr ?_
    rw [Machine.execute, Machine.popTwo]
    simp only [frame, hstack] at hresolve ⊢
    simp only [Machine.storeItem_eq, hresolve, hcode]

/-- The assignment to an item of what a name is bound to is realized in the scope that binds the
    name. -/
theorem realizes_assignItem {i : Value Definition} (hline : p.IsOn tracked line)
    (hinstr : p.code.instrs[p.next]? = some (.storeIndex name))
    (hstack : p.stack = v.code :: i.code :: stack) (hp : p.IsLegal tracked)
    (hw : w.IsLegal tracked) (hi : i.IsLegal tracked) (hv : v.IsLegal tracked) :
    (p.stage w).Realizes tracked fuel (p.Binds tracked stack)
      ((p.scope.assignItem line name i v).outcome w) := by
  have hresolve := resolve?_eq hp (p.next + 1) name w
  rw [Scope.assignItem]
  cases hlocal : p.scope.bind (·.find? name) with
  | some container =>
    obtain ⟨locals, hlocals, hfind⟩ := Option.bind_eq_some_iff.1 hlocal
    rw [hlocal] at hresolve
    refine realizes_replaceAt hline hinstr hstack hresolve fun updated hupdated =>
      ⟨{ p with scope := p.scope.map (·.insert name updated), next := p.next + 1, stack }, w,
        rfl, ?_, .pure ⟨?_, by simp, hw, rfl⟩⟩
    · simp [Machine.bindAt, machine, frame, hlocals]
    · rw [hlocals]
      rintro _ ⟨⟩
      have hlegal := hp.scope locals hlocals
      exact hlegal.insert (Value.within_replaceAt (hlegal.find? hfind) hi hv hupdated)
  | none =>
    rw [hlocal] at hresolve
    rw [Eval.outcome_bind, Eval.outcome_get]
    dsimp only
    cases hglobal : w.globals.find? name with
    | some container =>
      rw [hglobal] at hresolve
      refine realizes_replaceAt hline hinstr hstack hresolve fun updated hupdated =>
        ⟨{ p with next := p.next + 1, stack }, ⟨w.globals.insert name updated, w.printed⟩, rfl,
          ?_, .pure ⟨hp.scope, rfl, hw.insert ?_, rfl⟩⟩
      · simp [Machine.bindAt, machine, frame]
      · exact Value.within_replaceAt (hw.find? hglobal) hi hv hupdated
    | none =>
      rw [hglobal] at hresolve
      cases hbuiltin : Builtin.ofName? name with
      | some builtin =>
        -- No item of a builtin can be replaced, so what would follow does not matter.
        rw [hbuiltin] at hresolve
        exact realizes_replaceAt hline hinstr hstack hresolve fun updated hupdated =>
          ⟨{ p with next := p.next + 1, stack }, w, rfl, rfl, .pure ⟨hp.scope, rfl, hw, rfl⟩⟩
      | none =>
        rw [hbuiltin] at hresolve
        refine .throw (faultsWith stack hline hinstr ?_)
        rw [Machine.execute, Machine.popTwo]
        simp only [frame, hstack] at hresolve ⊢
        rw [Machine.storeItem_eq, hresolve]
        rfl

/-! ## Loops -/

/-- After the body of a loop, the next round follows or the end of the loop. -/
theorem Ends.round {kind : LoopKind} {head last exit next : Nat} {loops : List OpenLoop}
    {ending : Exit} {scope' : Scope} {again : Scope → Eval (Exit × Scope)}
    (h : ({ p with scope, line, loops, next } : Site).Ends tracked (some ⟨kind, head, exit⟩) last
      lines (ending, scope') w b)
    (hclose : kind.close loops = p.loops) (hisSome : scope.isSome = p.scope.isSome)
    (hline : line = p.line ∨ line ∈ lines) (hlast : p.code.instrs[last]? = some (.jump head))
    (hagain : ∀ {scope : Scope} {line : Line} {w : World}, scope.IsLegal tracked →
      scope.isSome = p.scope.isSome → w.IsLegal tracked →
      (({ p with scope, line, loops, next := head } : Site).stage w).Realizes tracked fuel
        (p.Ends tracked loop exit lines) ((again scope).outcome w)) :
    b.Realizes tracked fuel (p.Ends tracked loop exit lines)
      ((match ending with
        | .through | .continues => again scope'
        | .breaks => return (.through, scope')
        | .leaves v => return (.leaves v, scope')).outcome w) := by
  obtain ⟨hscope', hisSome', hw, line', hline', hleads⟩ := h
  have hisSome' := hisSome'.trans hisSome
  have hlines : line' = p.line ∨ line' ∈ lines := by
    rcases hline' with rfl | hline'
    · exact hline
    · exact .inr hline'
  cases ending with
  | through =>
    obtain rfl := hleads
    exact .step (next?_jump hlast) (hagain hscope' hisSome' hw)
  | continues =>
    obtain ⟨_, ⟨⟩, rfl⟩ := hleads
    exact hagain hscope' hisSome' hw
  | breaks =>
    -- A loop over items has closed its iterator, so the loops around it are left.
    obtain ⟨_, ⟨⟩, rfl⟩ := hleads
    refine .pure ⟨hscope', hisSome', hw, line', hlines, ?_⟩
    rw [LeadsTo, ← hclose]
    rfl
  | leaves v => exact .pure ⟨hscope', hisSome', hw, line', hlines, hleads⟩

/-- The rounds of a loop that tests before each of them. The first test is at `head + 1`, the
    others come after the `line` instruction at `head`. -/
theorem realizes_repeatWhile (inner : Nat) {head last exit : Nat} {test : Scope → Eval Bool}
    {body : Scope → Eval (Exit × Scope)} (hmem : line ∈ lines)
    (hhead : p.code.instrs[head]? = some (.line line))
    (hlast : p.code.instrs[last]? = some (.jump head))
    (htest : ∀ {scope : Scope} {current : Line} {w : World}, scope.IsLegal tracked →
      scope.isSome = p.scope.isSome → (tracked → current = line) → w.IsLegal tracked →
      (({ p with scope, line := current, next := head + 1 } : Site).stage w).Realizes tracked fuel
        (fun v w b => w.IsLegal tracked ∧ b = ({ p with
          scope, line := current, next := if v then inner else exit } : Site).stage w)
        ((test scope).outcome w))
    (hbody : ∀ {scope : Scope} {current : Line} {w : World}, scope.IsLegal tracked →
      scope.isSome = p.scope.isSome → (tracked → current = line) → w.IsLegal tracked →
      (({ p with scope, line := current, next := inner } : Site).stage w).Realizes tracked fuel
        (({ p with scope, line := current, next := inner } : Site).Ends tracked
          (some ⟨.testing, head, exit⟩) last lines)
        ((body scope).outcome w))
    {k : Nat} (hk : k ≤ fuel) {current : Line} (hscope : scope.IsLegal tracked)
    (hisSome : scope.isSome = p.scope.isSome) (hcurrent : current = p.line ∨ current ∈ lines)
    (hline : tracked → current = line) (hw : w.IsLegal tracked) :
    (({ p with scope, line := current, next := head + 1 } : Site).stage w).Realizes tracked k
      (p.Ends tracked loop exit lines) ((repeatWhile test body k scope).outcome w) := by
  induction k generalizing scope current w with
  | zero => exact .exhausted
  | succ k ih =>
    -- The `line` instruction before the next round is the step that the round counts for. It
    -- leaves the frame on the line of the loop, whatever line this round ends on.
    have hagain : ∀ {scope : Scope} {line' : Line} {w : World}, scope.IsLegal tracked →
        scope.isSome = p.scope.isSome → w.IsLegal tracked →
        (({ p with scope, line := line', next := head } : Site).stage w).Realizes tracked (k + 1)
          (p.Ends tracked loop exit lines) ((repeatWhile test body k scope).outcome w) :=
      fun hscope hisSome hw => .of_next (next?_line hhead)
        (ih (Nat.le_of_succ_le hk) hscope hisSome (.inr hmem) (fun _ => rfl) hw)
    refine .bind ((htest hscope hisSome hline hw).mono hk) ?_
    rintro v w _ ⟨hw, rfl⟩
    cases v with
    | false => exact .pure ⟨hscope, hisSome, hw, current, hcurrent, rfl⟩
    | true =>
      refine .bind ((hbody hscope hisSome hline hw).mono hk) ?_
      rintro ⟨ending, scope'⟩ w b hends
      exact hends.round rfl hisSome hcurrent hlast hagain

/-- The rounds of a loop over items, which starts each of them at `head + 1`. -/
theorem realizes_repeatFor {head last exit : Nat} {var : String}
    {body : Scope → Eval (Exit × Scope)} (hmem : line ∈ lines)
    (hhead : p.code.instrs[head]? = some (.line line))
    (hnext : p.code.instrs[head + 1]? = some (.iterNext exit))
    (hstore : p.code.instrs[head + 2]? = some (.store var))
    (hlast : p.code.instrs[last]? = some (.jump head)) (hp : p.IsLegal tracked)
    (hbody : ∀ {scope : Scope} {current : Line} {opened : OpenLoop} {w : World},
      scope.IsLegal tracked → scope.isSome = p.scope.isSome → (tracked → current = line) →
      w.IsLegal tracked →
      (({ p with
        scope, line := current, loops := opened :: p.loops,
        next := head + 3 } : Site).stage w).Realizes tracked fuel
        (({ p with
          scope, line := current, loops := opened :: p.loops, next := head + 3 } : Site).Ends
          tracked (some ⟨.iterating, head, exit⟩) last lines)
        ((body scope).outcome w))
    {items : List (Value Definition)} {taken : Nat} {current : Line}
    (hitems : ∀ v ∈ items, v.IsLegal tracked) (hscope : scope.IsLegal tracked)
    (hisSome : scope.isSome = p.scope.isSome) (hcurrent : current = p.line ∨ current ∈ lines)
    (hline : tracked → current = line) (hw : w.IsLegal tracked) :
    (({ p with
      scope, line := current, loops := ⟨taken, items.map Value.code⟩ :: p.loops,
      next := head + 1 } : Site).stage w).Realizes tracked fuel (p.Ends tracked loop exit lines)
      ((repeatFor var body items scope).outcome w) := by
  induction items generalizing taken scope current w with
  | nil =>
    refine .step (next?_eq (q := { p with scope, line := current, next := exit }) hnext rfl rfl)
      (.pure ?_)
    exact ⟨hscope, hisSome, hw, current, hcurrent, rfl⟩
  | cons item rest ih =>
    have hrest : ∀ v ∈ rest, v.IsLegal tracked := fun v hv => hitems v (List.mem_cons_of_mem _ hv)
    -- The next round begins with the line of the loop, whatever line this one ends on.
    have hagain : ∀ {scope : Scope} {line' : Line} {w : World}, scope.IsLegal tracked →
        scope.isSome = p.scope.isSome → w.IsLegal tracked →
        (({ p with
          scope, line := line', loops := ⟨taken + 1, rest.map Value.code⟩ :: p.loops,
          next := head } : Site).stage w).Realizes tracked fuel
          (p.Ends tracked loop exit lines) ((repeatFor var body rest scope).outcome w) :=
      fun hscope hisSome hw => .step (next?_line hhead)
        (ih hrest hscope hisSome (.inr hmem) (fun _ => rfl) hw)
    -- The item is taken, and bound to the name, before the body runs.
    let q : Site := { p with
      scope, line := current, loops := ⟨taken + 1, rest.map Value.code⟩ :: p.loops,
      next := head + 2, stack := item.code :: p.stack }
    refine .step (next?_eq (q := q) hnext rfl rfl) ?_
    refine .bind (realizes_assign (p := q) hstore rfl ⟨hp.isModule_eq hisSome, hscope⟩ hw
      (hitems item List.mem_cons_self)) ?_
    rintro scope' w _ ⟨hscope', hisSome', hw, rfl⟩
    refine .bind (hbody hscope' (hisSome'.trans hisSome) hline hw) ?_
    rintro ⟨ending, scope''⟩ w b hends
    exact hends.round rfl (hisSome'.trans hisSome) hcurrent hlast hagain

end Site

end Linewise
