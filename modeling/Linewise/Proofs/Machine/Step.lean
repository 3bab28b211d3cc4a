import Linewise.Machine.Step
import Linewise.Proofs.Bindings
import Linewise.Proofs.Code.Flow
import Linewise.Proofs.Value.Faults

/-!
# What a step can do

All that an instruction can make of a machine (`Machine.Executes`): it goes on in its frame, at
one of the exits that the instruction has from there, or it enters a function, leaves one, prints
a text, reaches a line or ends the run. What else holds of a machine after a step follows from
these cases, and does not need the instructions any more.
-/

namespace Linewise

/-- The place in its code that a frame is at. -/
def Frame.place (frame : Frame) : Place := ⟨frame.next, frame.stack.length, frame.loops.length⟩

namespace Machine

section Cases

variable {m : Machine} {frame : Frame} {callers : List Frame} {line : Line} {count : Nat}
  {stack : List (Value Code)} {Q : Progress → Prop}

/-! ## Operands -/

/-- An operand is there to be used, or the stack is empty. -/
theorem pop_cases {use : Value Code → List (Value Code) → Progress}
    (hfail : ∀ stack cause, stack ⊆ frame.stack → frame.stack.length < 1 →
      Q (m.failWith frame callers line stack cause))
    (huse : ∀ v stack, frame.stack = v :: stack → Q (use v stack)) :
    Q (m.pop frame callers line use) := by
  rw [pop]
  split
  next h => exact huse _ _ h
  next h => exact hfail _ _ (List.nil_subset _) (by rw [h]; exact Nat.one_pos)

/-- Two operands are there to be used, or the stack is too small. -/
theorem popTwo_cases {use : Value Code → Value Code → List (Value Code) → Progress}
    (hfail : ∀ stack cause, stack ⊆ frame.stack → frame.stack.length < 2 →
      Q (m.failWith frame callers line stack cause))
    (huse : ∀ v w stack, frame.stack = w :: v :: stack → Q (use v w stack)) :
    Q (m.popTwo frame callers line use) := by
  rw [popTwo]
  split
  next h => exact huse _ _ _ h
  next h =>
    refine hfail _ _ (List.nil_subset _) (Nat.lt_of_not_le fun hle => ?_)
    match hstack : frame.stack, hle with
    | w :: v :: stack, _ => exact h w v stack hstack

/-- As many operands as are asked for are there to be used, or the stack is too small. -/
theorem popMany_cases {use : List (Value Code) → List (Value Code) → Progress}
    (hfail : ∀ stack cause, stack ⊆ frame.stack → frame.stack.length < count →
      Q (m.failWith frame callers line stack cause))
    (huse : ∀ args stack, frame.stack = args.reverse ++ stack → args.length = count →
      Q (use args stack)) :
    Q (m.popMany frame callers line count use) := by
  rw [popMany]
  split
  next h =>
    refine huse _ _ ?_ ?_
    · rw [List.reverse_reverse, List.take_append_drop]
    · rw [List.length_reverse, List.length_take, Nat.min_eq_left h]
  next h => exact hfail _ _ (List.Subset.refl _) (Nat.lt_of_not_le h)

/-- The result of an operation is pushed, or its fault is that of the machine. -/
theorem pushResult_cases {result : Except Cause (Value Code)}
    (hfail : ∀ cause, result = .error cause → Q (m.failWith frame callers line stack cause))
    (hok : ∀ v, result = .ok v →
      Q (.next (m.withFrame { frame with stack := v :: stack } callers))) :
    Q (m.pushResult frame callers line stack result) := by
  cases result with
  | ok v => exact hok v rfl
  | error cause => exact hfail cause rfl

/-! ## Names -/

variable {home : Home} {name : String} {v : Value Code}

/-- Where a name is bound, its value is found there. -/
theorem resolve?_cases (h : m.resolve? frame name = some (home, v)) :
    home = .local ∧ frame.locals.find? name = some v ∨
      home = .global ∧ m.globals.find? name = some v ∨
      home = .builtin ∧ ∃ b, v = .builtin b := by
  rw [resolve?] at h
  split at h
  next hlocal =>
    cases h
    split at hlocal
    · cases hlocal
    · exact .inl ⟨rfl, hlocal⟩
  next =>
    split at h
    next hglobal =>
      cases h
      exact .inr (.inl ⟨rfl, hglobal⟩)
    next =>
      obtain ⟨b, -, hb⟩ := Option.map_eq_some_iff.1 h
      cases hb
      exact .inr (.inr ⟨rfl, b, rfl⟩)

/-- It does not matter whether a name that is bound was taken out before. -/
theorem bindAt_takeOut :
    (m.takeOut frame home name).1.bindAt { (m.takeOut frame home name).2 with stack } callers home
      name v = m.bindAt { frame with stack } callers home name v := by
  cases home <;> simp [takeOut, bindAt]

/-- A name that is bound again to what it means is bound as before. -/
theorem bindAt_of_resolve? (h : m.resolve? frame name = some (home, v)) :
    m.bindAt { frame with stack } callers home name v =
      m.withFrame { frame with stack } callers := by
  rcases resolve?_cases h with ⟨rfl, hlocal⟩ | ⟨rfl, hglobal⟩ | ⟨rfl, -⟩
  · rw [bindAt, withFrame]
    dsimp only
    rw [Bindings.insert_of_find? hlocal]
  · rw [bindAt, withFrame, Bindings.insert_of_find? hglobal]
  · rfl

/-- An item is replaced as if its list had stayed in its scope meanwhile: it is put back as it was
    when there is no such item. -/
theorem storeItem_eq (m : Machine) (frame : Frame) (callers : List Frame) (line : Line)
    (stack : List (Value Code)) (name : String) (index item : Value Code) :
    m.storeItem frame callers line stack name index item =
      match m.resolve? frame name with
      | none => m.failWith frame callers line stack (.unbound name)
      | some (home, container) =>
        match container.replaceAt index item with
        | .error cause => m.failWith frame callers line stack cause
        | .ok updated => .next (m.bindAt { frame with stack } callers home name updated) := by
  rw [storeItem]
  cases hresolve : m.resolve? frame name with
  | none => rfl
  | some found =>
    obtain ⟨home, container⟩ := found
    cases hreplace : container.replaceAt index item with
    | error cause => simp only [hreplace, bindAt_takeOut, bindAt_of_resolve? hresolve, failWith]
    | ok updated => simp only [hreplace, bindAt_takeOut]

/-- An assignment to an item binds the list with the item replaced where the name was found, or it
    fails, and not for a reason of the machine. -/
theorem storeItem_cases {index item : Value Code}
    (hfail : ∀ cause, cause.kind ≠ .systemError → Q (m.failWith frame callers line stack cause))
    (hok : ∀ home container updated, m.resolve? frame name = some (home, container) →
      container.replaceAt index item = .ok updated →
      Q (.next (m.bindAt { frame with stack } callers home name updated))) :
    Q (m.storeItem frame callers line stack name index item) := by
  rw [storeItem_eq]
  split
  · exact hfail _ nofun
  next hresolve =>
    split
    next hupdated => exact hfail _ (Value.harmless_replaceAt _ hupdated)
    next hupdated => exact hok _ _ _ hresolve hupdated

/-- What a call can come to: a fault, which is none of the machine itself; the reply of a built-in
    function, with a text or without; or a new frame, if there is room for one. -/
theorem call_cases {callee : Value Code} {args : List (Value Code)}
    (hfail : ∀ cause, cause.kind ≠ .systemError → Q (m.failWith frame callers line stack cause))
    (hreply : ∀ builtin reply, Builtin.call builtin args = .ok reply →
      let m' := m.withFrame { frame with stack := reply.value :: stack } callers
      Q (.next m') ∧ ∀ text, Q (.printed text m'))
    (henter : ∀ code, callee = .function code → callers.length + 1 < m.maxDepth →
      Q (.next { m with
        frames := .enter code (Bindings.ofList (code.params.zip args)) ::
          { frame with stack } :: callers })) :
    Q (m.call frame callers line stack callee args) := by
  unfold call
  split
  next b =>
    split
    next hcall => exact hfail _ (Builtin.harmless_call _ hcall)
    next reply hok =>
      obtain ⟨hnext, hprinted⟩ := hreply b reply hok
      dsimp only
      split
      · exact hprinted _
      · exact hnext
  next code =>
    rw [enter]
    split
    · exact hfail _ nofun
    · split
      · exact hfail _ nofun
      next hroom => exact henter code rfl (Nat.lt_of_not_le hroom)
  · exact hfail _ nofun

/-- The innermost loop has an item to go on with, or it is done; without a loop the machine
    fails. -/
theorem nextItem_cases {exit : Nat}
    (hfail : ∀ stack cause, stack ⊆ frame.stack → frame.loops = [] →
      Q (m.failWith frame callers line stack cause))
    (hdone : ∀ taken outer, frame.loops = ⟨taken, []⟩ :: outer →
      Q (.next (m.withFrame { frame with loops := outer, next := exit } callers)))
    (hitem : ∀ taken item rest outer, frame.loops = ⟨taken, item :: rest⟩ :: outer →
      Q (.next (m.withFrame { frame.push item with loops := ⟨taken + 1, rest⟩ :: outer }
        callers))) :
    Q (m.nextItem frame callers line exit) := by
  rw [nextItem]
  split
  next h => exact hfail _ _ (List.Subset.refl _) h
  next h => exact hdone _ _ h
  next h => exact hitem _ _ _ _ h

end Cases

/-! ## Instructions -/

/-- What an instruction can do in a frame that has moved on past it. -/
inductive Executes (m : Machine) (frame : Frame) (callers : List Frame) (line : Line)
    (instr : Instr) : Progress → Prop
  | stays {frame' : Frame} {globals : Bindings (Value Code)} (hcode : frame'.code = frame.code)
      (hplace : frame'.place ∈ instr.exits frame.place)
      (hline : frame'.line = instr.lineAfter frame.line) :
      Executes m frame callers line instr (.next ⟨frame' :: callers, globals, m.maxDepth⟩)
  | prints {text : String} {stack : List (Value Code)}
      (hplace : Frame.place { frame with stack } ∈ instr.exits frame.place)
      (hinstr : ∃ argc, instr = .call argc) :
      Executes m frame callers line instr
        (.printed text (m.withFrame { frame with stack } callers))
  | reaches {reached : Line} (hinstr : instr = .line reached) :
      Executes m frame callers line instr
        (.atLine reached (m.withFrame { frame with line := reached } callers))
  /-- The frame that calls is at an exit of the instruction as soon as it has got the value. -/
  | enters {code : Code} {locals : Bindings (Value Code)} {stack : List (Value Code)}
      (hcallee : .function code ∈ frame.stack)
      (hplace : ∀ v, Frame.place { frame with stack := v :: stack } ∈ instr.exits frame.place)
      (hroom : callers.length + 1 < m.maxDepth) (hinstr : ∃ argc, instr = .call argc) :
      Executes m frame callers line instr
        (.next { m with frames := .enter code locals :: { frame with stack } :: callers })
  | leaves {caller : Frame} {outer : List Frame} {v : Value Code}
      (hcallers : callers = caller :: outer) :
      Executes m frame callers line instr (.next { m with frames := caller.push v :: outer })
  | finishes (hinstr : instr = .leave) (hcallers : callers = []) :
      Executes m frame callers line instr (.finished { m with frames := [] })
  /-- Unless the instruction is not fed, it lacks its result for an exit, or a loop. -/
  | fails {stack : List (Value Code)} {cause : Cause}
      (hcause : instr.Fed frame.place → cause.kind ≠ .systemError ∧ (instr = .iterStart ∨
        ∃ results, Frame.place { frame with stack := results ++ stack } ∈
          instr.exits frame.place))
      (hinstr : instr.mayFail = true) :
      Executes m frame callers line instr (m.failWith frame callers line stack cause)

variable {m : Machine} {frame : Frame} {callers : List Frame} {line : Line}

/-- Every instruction does one of these. -/
theorem execute_executes (instr : Instr) :
    Executes m frame callers line instr (m.execute frame callers line instr) := by
  have hunfed : ∀ stack cause, stack ⊆ frame.stack → frame.stack.length < instr.pops →
      Executes m frame callers line instr (m.failWith frame callers line stack cause) :=
    fun _ _ _ hlt =>
      .fails (fun hfed => absurd hfed.pops_le (Nat.not_le.2 hlt)) (Instr.mayFail_of_pops hlt)
  -- An operation that goes wrong leaves its result out, and a replacement has none.
  have hfail : ∀ {stack : List (Value Code)} results cause, instr.mayFail = true →
      cause.kind ≠ .systemError →
      Frame.place { frame with stack := results ++ stack } ∈ instr.exits frame.place →
      Executes m frame callers line instr (m.failWith frame callers line stack cause) :=
    fun results _ hinstr hcause hplace =>
      .fails (fun _ => ⟨hcause, .inr ⟨results, hplace⟩⟩) hinstr
  have hbind : ∀ {stack home name v}, instr.mayFail = true →
      Frame.place { frame with stack } ∈ instr.exits frame.place → Executes m frame callers line
        instr (.next (m.bindAt { frame with stack } callers home name v)) := by
    intro stack home name v hinstr hplace
    have hline : instr.lineAfter frame.line = frame.line := Instr.lineAfter_of_mayFail hinstr
    cases home <;> exact .stays rfl hplace hline.symm
  cases instr with
  | line reached => exact .reaches rfl
  | const v => exact .stays rfl (by simp [Instr.exits, Frame.place, Frame.push]) rfl
  | load name =>
    rw [execute]
    dsimp only
    split
    · exact .stays rfl (by simp [Instr.exits, Frame.place, Frame.push]) rfl
    · exact hfail [.none] _ rfl (by rintro ⟨⟩) (by simp [Instr.exits, Frame.place])
  | store name =>
    exact pop_cases hunfed fun v stack h => hbind rfl (by simp [Instr.exits, Frame.place, h])
  | storeIndex name =>
    refine popTwo_cases hunfed fun v w stack h => ?_
    have hplace : Frame.place { frame with stack } ∈ (Instr.storeIndex name).exits frame.place := by
      simp [Instr.exits, Frame.place, h]
    exact storeItem_cases (fun cause hcause => hfail [] cause rfl hcause hplace)
      fun _ _ _ _ _ => hbind rfl hplace
  | buildList count =>
    rw [execute]
    refine popMany_cases hunfed fun items stack h hitems => .stays rfl ?_ rfl
    simp [Instr.exits, Frame.place, h, hitems]
  | index =>
    refine popTwo_cases hunfed fun object index stack h => ?_
    have hplace : ∀ v, Frame.place { frame with stack := v :: stack } ∈
        Instr.index.exits frame.place := by simp [Instr.exits, Frame.place, h]
    exact pushResult_cases
      (fun cause hcause => hfail [.none] cause rfl (Value.harmless_subscript _ hcause) (hplace _))
      fun v _ => .stays rfl (hplace v) rfl
  | unary op =>
    refine pop_cases hunfed fun operand stack h => ?_
    have hplace : ∀ v, Frame.place { frame with stack := v :: stack } ∈
        (Instr.unary op).exits frame.place := by simp [Instr.exits, Frame.place, h]
    exact pushResult_cases
      (fun cause hcause => hfail [.none] cause rfl (Value.harmless_applyUnary _ hcause) (hplace _))
      fun v _ => .stays rfl (hplace v) rfl
  | binary op =>
    refine popTwo_cases hunfed fun left right stack h => ?_
    have hplace : ∀ v, Frame.place { frame with stack := v :: stack } ∈
        (Instr.binary op).exits frame.place := by simp [Instr.exits, Frame.place, h]
    exact pushResult_cases
      (fun cause hcause => hfail [.none] cause rfl (Value.harmless_applyBinary _ hcause) (hplace _))
      fun v _ => .stays rfl (hplace v) rfl
  | jump target => exact .stays rfl (List.mem_singleton_self _) rfl
  | jumpIfFalse target =>
    refine pop_cases hunfed fun v stack h => .stays rfl ?_ rfl
    cases v.isTruthy <;> simp [Instr.exits, Frame.place, h]
  | jumpIfFalseOrPop target | jumpIfTrueOrPop target =>
    refine pop_cases hunfed fun v stack h => ?_
    cases v.isTruthy <;> exact .stays rfl (by simp [Instr.exits, Frame.place, Frame.jump, h]) rfl
  | call argc =>
    rw [execute]
    refine popMany_cases (fun stack cause hsub hlt => hunfed stack cause hsub
      (Nat.lt_succ_of_lt hlt)) fun args stack h hargs => ?_
    -- What is called lies below its arguments.
    split
    next callee stack =>
      have hplace : ∀ v, Frame.place { frame with stack := v :: stack } ∈
          (Instr.call argc).exits frame.place := by
        intro v
        simp only [Instr.exits, Frame.place, h, List.length_append, List.length_reverse, hargs,
          List.length_cons, List.mem_singleton, Place.mk.injEq, true_and, and_true]
        omega
      refine call_cases (fun cause hcause => hfail [.none] cause rfl hcause (hplace _))
        (fun _ reply _ => ⟨.stays rfl (hplace _) rfl, fun _ => .prints (hplace _) ⟨argc, rfl⟩⟩) ?_
      rintro code rfl hroom
      refine .enters ?_ hplace hroom ⟨argc, rfl⟩
      rw [h]
      exact List.mem_append_right _ List.mem_cons_self
    · refine hunfed _ _ (List.nil_subset _) ?_
      rw [h, List.append_nil, List.length_reverse, hargs]
      exact Nat.lt_succ_self argc
  | leave =>
    refine pop_cases hunfed fun v stack _ => ?_
    unfold leave
    split
    · exact .finishes rfl rfl
    · exact .leaves rfl
  | pop =>
    exact pop_cases hunfed fun v stack h =>
      .stays rfl (by simp [Instr.exits, Frame.place, h]) rfl
  | makeFunction code => exact .stays rfl (List.mem_singleton_self _) rfl
  | iterStart =>
    refine pop_cases hunfed fun v stack h => ?_
    dsimp only
    split
    · exact .stays rfl (by simp [Instr.exits, Frame.place, h]) rfl
    next hcause => exact .fails (fun _ => ⟨Value.harmless_iterate _ hcause, .inl rfl⟩) rfl
  | iterNext exit =>
    refine nextItem_cases (fun _ _ _ hloops => .fails (fun hfed => ?_) rfl) ?_ ?_
    · have hpos := hfed.depth_pos exit rfl
      rw [Frame.place, hloops] at hpos
      exact absurd hpos (Nat.lt_irrefl 0)
    · exact fun _ _ h => .stays rfl (by simp [Instr.exits, Frame.place, h]) rfl
    · exact fun _ _ _ _ h =>
        .stays rfl (by simp [Instr.exits, Frame.place, Frame.push, h]) rfl
  | iterDrop => exact .stays rfl (by simp [Instr.exits, Frame.place]) rfl

/-- A step of a machine with a frame runs the next instruction of that, if it has one. -/
theorem step_eq_execute {instr : Instr} (hframes : m.frames = frame :: callers)
    (hinstr : frame.code.instrs[frame.next]? = some instr) :
    m.step = m.execute { frame with next := frame.next + 1 } callers frame.line instr := by
  simp only [step, hframes, hinstr]

/-- What a step of a machine can do. -/
inductive Steps (m : Machine) : Progress → Prop
  | empty (hframes : m.frames = []) : Steps m (.finished m)
  | ends {frame : Frame} {callers : List Frame} (hframes : m.frames = frame :: callers)
      (hinstr : frame.code.instrs[frame.next]? = none) (hmodule : frame.code.isModule = true) :
      Steps m (.finished m)
  | falls {frame : Frame} {callers : List Frame} (hframes : m.frames = frame :: callers)
      (hinstr : frame.code.instrs[frame.next]? = none) (hmodule : frame.code.isModule = false) :
      Steps m (.faulted (.onLine (.breakdown .fellOffFunction) frame.line) m)
  | executes {frame : Frame} {callers : List Frame} {instr : Instr} {progress : Progress}
      (hframes : m.frames = frame :: callers)
      (hinstr : frame.code.instrs[frame.next]? = some instr)
      (hexec : Executes m { frame with next := frame.next + 1 } callers frame.line instr progress) :
      Steps m progress

/-- A step does one of the things that `Steps` lists. -/
theorem step_steps (m : Machine) : Steps m m.step := by
  cases hframes : m.frames with
  | nil =>
    rw [step, hframes]
    exact .empty hframes
  | cons frame callers =>
    cases hinstr : frame.code.instrs[frame.next]? with
    | some instr =>
      rw [step_eq_execute hframes hinstr]
      exact .executes hframes hinstr (execute_executes instr)
    | none =>
      -- Past the end of its code, a script ends, and a function cannot be.
      simp only [step, hframes, hinstr]
      split
      next h => exact .ends hframes hinstr h
      next h => exact .falls hframes hinstr (Bool.eq_false_iff.2 h)

end Machine

end Linewise
