import Linewise.Proofs.Evaluation.Statement

/-!
# Calls on the machine

A call of a function runs its code in a frame of its own. By induction on the number of frames
that there is room for, calls do on the machine what they do in an evaluation
(`callsRealized`), and so do expressions, statements and whole programs
(`Program.realizes_evaluate`).
-/

namespace Linewise

namespace Site

variable {tracked : Prop} {p : Site} {w : World} {fuel : Nat} {line : Line}
  {callee : Value Definition} {args : List (Value Definition)} {stack : List (Value Code)}

/-- A `call` instruction calls the value below its arguments with these, in the order in which they
    were pushed. -/
theorem execute_call
    (hstack : p.stack = (args.map Value.code).reverse ++ callee.code :: stack) :
    (p.machine w).execute { p.frame with next := p.next + 1 } p.callers p.line
        (.call args.length) =
      (p.machine w).call { p.frame with next := p.next + 1 } p.callers p.line stack callee.code
        (args.map Value.code) := by
  rw [Machine.execute, ← List.length_map (f := Value.code), Machine.popMany_eq hstack]

/-- The site where a function has just been called from another site. -/
def entering (p : Site) (stack : List (Value Code)) (d : Definition)
    (args : List (Value Definition)) : Site :=
  ⟨d.code, { p.frame with next := p.next + 1, stack } :: p.callers, p.maxDepth,
    some (Bindings.ofList (d.params.zip args)), d.line, [], 0, []⟩

/-- The call of a function with the wrong number of arguments or without room for one more frame
    faults in the caller; otherwise it leads to the site where the function has been entered. -/
theorem execute_callFunction {d : Definition}
    (hstack : p.stack = (args.map Value.code).reverse ++ (Value.function d).code :: stack) :
    (p.machine w).execute { p.frame with next := p.next + 1 } p.callers p.line
        (.call args.length) =
      if args.length ≠ d.params.length then
        (p.machine w).failWith { p.frame with next := p.next + 1 } p.callers p.line stack
          (.arity d.name d.params.length args.length)
      else if p.callers.length + 1 ≥ p.maxDepth then
        (p.machine w).failWith { p.frame with next := p.next + 1 } p.callers p.line stack
          .tooDeepRecursion
      else .next ((p.entering stack d args).machine w) := by
  -- The parameters are bound to what the arguments stand for.
  have hlocals : Bindings.ofList (d.params.zip (args.map Value.code)) =
      (Bindings.ofList (d.params.zip args)).map Value.code := by
    rw [← Bindings.ofList_map, List.zip_map_right]
    rfl
  rw [execute_call hstack]
  simp only [Value.code, Value.map, Machine.call, Machine.enter, List.length_map]
  congr 2
  simp only [entering, machine, frame, Option.getD_some, ← hlocals]
  rfl

/-- A call does what it does in the evaluation when the run of a function body does. -/
theorem realizes_apply
    {run : Definition → Bindings (Value Definition) → Eval (Value Definition)}
    (hline : p.IsOn tracked line) (hw : w.IsLegal tracked) (hargs : ∀ v ∈ args, v.IsLegal tracked)
    (hinstr : p.code.instrs[p.next]? = some (.call args.length))
    (hstack : p.stack = (args.map Value.code).reverse ++ callee.code :: stack)
    (hrun : ∀ d, callee = .function d → args.length = d.params.length →
      (p.stage w).Realizes tracked fuel (p.Pushes tracked (p.next + 1) stack)
        ((run d (Bindings.ofList (d.params.zip args))).outcome w)) :
    (p.stage w).Realizes tracked fuel (p.Pushes tracked (p.next + 1) stack)
      ((Value.apply run line callee args).outcome w) := by
  cases callee with
  | builtin builtin =>
    have hexec := execute_call (w := w) hstack
    -- A built-in function gives the same for codes as for the definitions that they are of.
    have hcall : (builtin.call (args.map Value.code) : Except Cause (Builtin.Reply Code)) = _ :=
      Builtin.call_map keepsHandles_code builtin args
    refine .onLine_bind ?_ ?_
    · rintro ⟨v, printed⟩ hreply
      rw [hreply] at hcall
      have hnext : (p.stage w).next? = some ((p.goTo (p.next + 1) (v.code :: stack)).stage
          ⟨w.globals, w.printed ++ printed.toList⟩) := by
        rw [Stage.next?, stage, step_eq hinstr, hexec]
        simp only [Value.code, Value.map, Machine.call, hcall]
        cases printed with
        | none => simp [Except.map, Builtin.Reply.map, stage]; rfl
        | some text => rfl
      exact .step hnext (.pure ⟨Value.within_call hargs hreply, hw, rfl⟩)
    · intro cause hcause
      rw [hcause] at hcall
      refine faultsWith stack hline hinstr (hexec.trans ?_)
      simp only [Value.code, Value.map, Machine.call, hcall]
      rfl
  | function d =>
    -- Whether the body has run well is for `hrun` to say.
    rw [Value.apply]
    by_cases harity : args.length ≠ d.params.length
    · rw [if_pos harity]
      exact .throw (faultsWith stack hline hinstr
        ((execute_callFunction hstack).trans (if_pos harity)))
    · rw [if_neg harity]
      exact hrun d rfl (Decidable.not_not.1 harity)
  | _ => exact .throw (faultsWith stack hline hinstr (execute_call hstack))

/-- A function is left for its caller. -/
theorem next?_leave {caller : Frame} {outer : List Frame} {v : Value Code}
    (hinstr : p.code.instrs[p.next]? = some .leave) (hstack : p.stack = v :: stack)
    (hcallers : p.callers = caller :: outer) :
    (p.stage w).next? =
      some ⟨⟨caller.push v :: outer, w.globals.map Value.code, p.maxDepth⟩, w.printed⟩ := by
  rw [Stage.next?, stage, step_eq hinstr]
  simp only [Machine.execute, Machine.pop, frame, hstack, Machine.leave, hcallers]
  rfl

/-- A function that has just been called runs its body, and its caller goes on with the value
    that the body leaves it with. -/
theorem realizes_body {d : Definition}
    (hcalls : CallsRealized tracked fuel (p.entering stack d args).room)
    (hd : d.IsLegal tracked) (hw : w.IsLegal tracked) (hargs : ∀ v ∈ args, v.IsLegal tracked) :
    ((p.entering stack d args).stage w).Realizes tracked fuel
      (p.Pushes tracked (p.next + 1) stack)
      ((do
        let (exit, _) ← Stmt.execAll (callIn fuel (p.entering stack d args).room) fuel d.body
          (p.entering stack d args).scope
        return exit.value : Eval (Value Definition)).outcome w) := by
  have hcode : d.code.Holds 0 (Stmt.emitAll none d.line 0 d.body ++ [.const .none, .leave]) :=
    d.code.holds_instrs
  simp only [Code.holds_append, Stmt.length_emitAll, Code.holds_cons] at hcode
  obtain ⟨hbody, hconst, hleave, -⟩ := hcode
  have hlocals : (p.entering stack d args).scope.IsLegal tracked := by
    rintro _ ⟨⟩
    exact Bindings.all_ofList fun pair hpair => hargs pair.2 (List.of_mem_zip hpair).2
  have hlegal : Legal ((p.entering stack d args).around none) d.body := hd.body
  refine .bind (Stmt.realizes_execAll d.body hcalls ⟨hd.isModule_code, hlocals⟩ hw hlegal
    hd.ascends (fun _ => .inl rfl) hbody) ?_
  rintro ⟨exit, scope⟩ w b ⟨-, -, hw, line, -, hleads⟩
  cases exit with
  | through =>
    -- The end of the body falls into the two instructions that leave it with `None`.
    obtain rfl := hleads
    exact .step (next?_const (p := _) hconst) (.step (next?_leave (p := _) hleave rfl rfl)
      (.pure ⟨Value.within_none, hw, rfl⟩))
  | leaves v =>
    -- Operands and iterators that are still open go away with the frame.
    obtain ⟨hv, -, next, loops, stack, hleave, rfl⟩ := hleads
    exact .step (next?_leave (p := _) hleave rfl rfl) (.pure ⟨hv, hw, rfl⟩)
  | breaks => obtain ⟨_, ⟨⟩, -⟩ := hleads
  | continues => obtain ⟨_, ⟨⟩, -⟩ := hleads

end Site

/-- With whatever room there is for frames, calls do what they do in the evaluation. -/
theorem callsRealized (tracked : Prop) (fuel room : Nat) : CallsRealized tracked fuel room := by
  induction room with
  | zero =>
    intro p w line callee args stack hroom hp hline hw hcallee hargs hinstr hstack
    rw [callIn]
    refine Site.realizes_apply hline hw hargs hinstr hstack ?_
    rintro d rfl harity
    -- No room is left: both sides refuse the call, whatever the body would do.
    have hexec := Site.execute_callFunction (w := w) hstack
    rw [if_neg (not_not_intro harity), if_pos (Nat.sub_eq_zero_iff_le.1 hroom)] at hexec
    exact .throw (Site.faultsWith stack hline hinstr hexec)
  | succ room ih =>
    intro p w line callee args stack hroom hp hline hw hcallee hargs hinstr hstack
    refine Site.realizes_apply hline hw hargs hinstr hstack ?_
    rintro d rfl harity
    have hexec := Site.execute_callFunction (w := w) hstack
    -- The calls in the body have one frame less, so they are realized by induction.
    have hdepth : p.maxDepth - (p.callers.length + 1) = room + 1 := hroom
    have hentering : (p.entering stack d args).room = room := by
      simp only [Site.entering, Site.room, List.length_cons]
      omega
    rw [if_neg (not_not_intro harity), if_neg (by omega)] at hexec
    refine .step (Site.next?_eq hinstr hexec rfl) ?_
    have hcalls : CallsRealized tracked fuel (p.entering stack d args).room := hentering ▸ ih
    have hbody := Site.realizes_body hcalls (Value.within_function.1 hcallee) hw hargs
    rw [hentering] at hbody
    exact hbody

end Linewise
