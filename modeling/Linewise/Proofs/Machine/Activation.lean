import Mathlib.Logic.Relation
import Linewise.Proofs.Machine.Lines

/-!
# Activations and their callers

While an activation of a function is under way, the frames below it wait for its value, each with
the operands that it had left when it called. No instruction reaches further down than to the
frame that is next, and only a return does that, with one value. So when the activation has
returned, its caller has this value in place of the callee and its arguments, and nothing else has
changed in the frames (`Execution.Visits.returns_to_caller`).

The bindings of the script are open to all activations. A function binds names of its own, though:
all that it can do to those of the script is to replace items of the lists that they are bound to
(`Bindings.ItemsReplaced`), so they stay the same names.
-/

namespace Linewise

namespace Bindings

section Names

variable {α : Type} {bindings : Bindings α} {name : String} {v : α}

/-- The names that are bound, in ascending order. -/
def names (bindings : Bindings α) : List String := bindings.entries.map Prod.fst

/-- A name is bound anew in its place. -/
theorem names_insert_of_mem (h : name ∈ bindings.names) :
    (bindings.insert name v).names = bindings.names := by
  obtain ⟨entries, hascending⟩ := bindings
  dsimp only [names, insert] at h ⊢
  induction entries with
  | nil => cases h
  | cons entry rest ih =>
    obtain ⟨habove, hrest⟩ := List.pairwise_cons.1 hascending
    rw [insertEntry]
    by_cases hname : name = entry.1
    · subst hname
      rw [if_neg (String.lt_irrefl _), if_pos rfl]
      rfl
    · have hmem := (List.mem_cons.1 h).resolve_left hname
      obtain ⟨found, hfound, rfl⟩ := List.mem_map.1 hmem
      rw [if_neg (String.lt_asymm (habove found hfound)), if_neg hname, List.map_cons,
        ih hrest hmem]
      rfl

theorem mem_names_of_find? (h : bindings.find? name = some v) : name ∈ bindings.names := by
  obtain ⟨entry, hentry, -⟩ := Option.map_eq_some_iff.1 h
  have hname : entry.1 = name := by simpa using List.find?_some hentry
  exact List.mem_map.2 ⟨entry, List.mem_of_find?_eq_some hentry, hname⟩

end Names

variable {φ : Type} {bindings bindings' : Bindings (Value φ)}

/-- An item of the list that a name is bound to is replaced. -/
def ItemReplaced (bindings bindings' : Bindings (Value φ)) : Prop :=
  ∃ name container index item updated, bindings.find? name = some container ∧
    container.replaceAt index item = .ok updated ∧ bindings' = bindings.insert name updated

/-- Items of lists that names are bound to are replaced, one after the other. -/
abbrev ItemsReplaced : Bindings (Value φ) → Bindings (Value φ) → Prop :=
  Relation.ReflTransGen ItemReplaced

/-- The names stay as they are when items are replaced. -/
theorem ItemsReplaced.names_eq (h : bindings.ItemsReplaced bindings') :
    bindings'.names = bindings.names := by
  induction h with
  | refl => rfl
  | tail _ hreplaced ih =>
    obtain ⟨name, container, index, item, updated, hfind, -, rfl⟩ := hreplaced
    exact (names_insert_of_mem (mem_names_of_find? hfind)).trans ih

end Bindings

namespace Machine

variable {m : Machine} {frame caller : Frame} {callers waiting : List Frame} {line : Line}
  {globals : Bindings (Value Code)}

/-- What an instruction of a frame, which has moved on past it, can do to the rest of a machine. -/
inductive Effect (m : Machine) (frame : Frame) (callers : List Frame) (instr : Instr) :
    Machine → Prop
  | stays {frame' : Frame} {globals : Bindings (Value Code)}
      (hglobals : frame.code.isModule = false → m.globals.ItemsReplaced globals) :
      Effect m frame callers instr ⟨frame' :: callers, globals, m.maxDepth⟩
  | enters {args stack : List (Value Code)} {code : Code}
      (hinstr : instr = .call args.length)
      (hstack : frame.stack = args.reverse ++ .function code :: stack) :
      Effect m frame callers instr { m with
        frames := .enter code (Bindings.ofList (code.params.zip args)) ::
          { frame with stack } :: callers }
  | leaves {caller : Frame} {outer : List Frame} {v : Value Code} {stack : List (Value Code)}
      (hinstr : instr = .leave) (hstack : frame.stack = v :: stack)
      (hcallers : callers = caller :: outer) :
      Effect m frame callers instr { m with frames := caller.push v :: outer }
  | finishes : Effect m frame callers instr { m with frames := [] }

/-- The machine after a step is what such an instruction can make of it. -/
def Progress.HasEffect (m : Machine) (frame : Frame) (callers : List Frame) (instr : Instr)
    (progress : Progress) : Prop :=
  Effect m frame callers instr progress.machine

/-- An assignment to an item replaces an item of a list in the bindings that it finds the name in,
    or faults. -/
theorem hasEffect_storeItem {stack : List (Value Code)} {name : String} {index item : Value Code}
    {instr : Instr} :
    (m.storeItem frame callers line stack name index item).HasEffect m frame callers instr := by
  refine storeItem_cases (fun _ _ => .stays fun _ => .refl) ?_
  intro home container updated hresolve hupdated
  rcases resolve?_cases hresolve with ⟨rfl, -⟩ | ⟨rfl, hglobal⟩ | ⟨rfl, -⟩
  · exact .stays fun _ => .refl
  · have hreplaced : m.globals.ItemReplaced (m.globals.insert name updated) :=
      ⟨name, container, index, item, updated, hglobal, hupdated, rfl⟩
    exact .stays fun _ => .single hreplaced
  · exact .stays fun _ => .refl

/-- Every instruction has one of these effects. -/
theorem hasEffect_execute (instr : Instr) :
    (m.execute frame callers line instr).HasEffect m frame callers instr := by
  -- Most instructions act in their own frame only, and so do all that fault.
  have hstay : ∀ frame', Effect m frame callers instr ⟨frame' :: callers, m.globals, m.maxDepth⟩ :=
    fun _ => .stays fun _ => .refl
  have hunfed : ∀ {count : Nat} stack cause, stack ⊆ frame.stack → frame.stack.length < count →
      (m.failWith frame callers line stack cause).HasEffect m frame callers instr :=
    fun _ _ _ _ => hstay _
  have hresult : ∀ stack result,
      (m.pushResult frame callers line stack result).HasEffect m frame callers instr :=
    fun _ _ => pushResult_cases (fun _ _ => hstay _) fun _ _ => hstay _
  cases instr with
  | line | const | jump | makeFunction | iterDrop => exact hstay _
  | load name =>
    rw [execute]
    dsimp only
    split <;> exact hstay _
  | store name =>
    refine pop_cases hunfed fun v stack _ => ?_
    -- Only the script itself binds its names.
    rw [assignmentHome]
    split
    next hmodule => exact .stays fun hfunction => absurd (hfunction.symm.trans hmodule) nofun
    · exact hstay _
  | storeIndex name => exact popTwo_cases hunfed fun _ _ _ _ => hasEffect_storeItem
  | buildList count =>
    rw [execute]
    exact popMany_cases hunfed fun _ _ _ _ => hstay _
  | index | binary => exact popTwo_cases hunfed fun _ _ _ _ => hresult _ _
  | unary op => exact pop_cases hunfed fun _ _ _ => hresult _ _
  | jumpIfFalse | jumpIfFalseOrPop | jumpIfTrueOrPop | pop =>
    exact pop_cases hunfed fun _ _ _ => hstay _
  | call argc =>
    rw [execute]
    refine popMany_cases hunfed fun args stack hstack hargs => ?_
    split
    next callee stack =>
      refine call_cases (fun _ _ => hstay _) (fun _ _ _ => ⟨hstay _, fun _ => hstay _⟩) ?_
      rintro code rfl -
      exact .enters (congrArg Instr.call hargs.symm) hstack
    · exact hstay _
  | leave =>
    refine pop_cases hunfed fun v stack hstack => ?_
    unfold leave
    split
    · exact .finishes
    · exact .leaves rfl hstack rfl
  | iterStart =>
    refine pop_cases hunfed fun v stack _ => ?_
    dsimp only
    split <;> exact hstay _
  | iterNext exit =>
    exact nextItem_cases (fun _ _ _ _ => hstay _) (fun _ _ _ => hstay _)
      fun _ _ _ _ _ => hstay _

/-- A step runs an instruction of the innermost frame, or leaves the machine as it is. -/
theorem effect_step (hframes : m.frames = frame :: callers) :
    (∃ instr, frame.code.instrs[frame.next]? = some instr ∧
      Effect m { frame with next := frame.next + 1 } callers instr m.step.machine) ∨
    m.step.machine = m := by
  cases hinstr : frame.code.instrs[frame.next]? with
  | some instr =>
    rw [step_eq_execute hframes hinstr]
    exact .inl ⟨instr, rfl, hasEffect_execute instr⟩
  | none =>
    simp only [step, hframes, hinstr]
    split <;> exact .inr rfl

/-- A step that adds a frame calls a function. It takes the callee and its arguments from the
    operands of the frame that calls, and binds the parameters to the arguments. -/
theorem exists_call (hframes : m.frames = frame :: callers)
    (henters : m.step.machine.frames.length = m.frames.length + 1) :
    ∃ args code stack, frame.code.instrs[frame.next]? = some (.call args.length) ∧
      frame.stack = args.reverse ++ .function code :: stack ∧
      m.step.machine = { m with
        frames := .enter code (Bindings.ofList (code.params.zip args)) ::
          { frame with next := frame.next + 1, stack } :: callers } := by
  rcases effect_step hframes with ⟨instr, hinstr, heffect⟩ | hkept
  · generalize m.step.machine = m' at henters heffect
    rw [hframes] at henters
    cases heffect with
    | enters hcall hstack =>
      subst hcall
      exact ⟨_, _, _, hinstr, hstack, rfl⟩
    | stays => exact absurd henters (Nat.ne_of_lt (Nat.lt_succ_self _))
    | leaves _ _ hcallers =>
      subst hcallers
      simp only [List.length_cons] at henters
      omega
    | finishes => cases henters
  · exact absurd (hkept ▸ henters) (Nat.ne_of_lt (Nat.lt_succ_self _))

/-- Some frames wait for an activation above them, and since the script had the bindings `globals`
    nothing but items of lists have been replaced in these. -/
structure CalledFrom (m : Machine) (waiting : List Frame) (globals : Bindings (Value Code)) :
    Prop where
  below : waiting <:+ m.frames
  above : waiting.length < m.frames.length
  replaced : globals.ItemsReplaced m.globals

namespace CalledFrom

/-- What is above frames that wait is a frame, and the frames that it was called from. -/
theorem exists_cons (h : m.CalledFrom waiting globals) :
    ∃ frame callers, m.frames = frame :: callers ∧ waiting <:+ callers := by
  have hwaiting := h.below
  have habove := h.above
  cases hframes : m.frames with
  | nil => exact absurd (hframes ▸ habove) (Nat.not_lt_zero _)
  | cons frame callers =>
    rw [hframes] at hwaiting habove
    rcases List.suffix_cons_iff.1 hwaiting with rfl | hsuffix
    · exact absurd habove (Nat.lt_irrefl _)
    · exact ⟨frame, callers, rfl, hsuffix⟩

/-- The frames below an activation wait on while it is under way. -/
theorem step (h : m.CalledFrom (caller :: callers) globals) (hstacked : Frame.Stacked m.frames)
    (hstays : callers.length + 1 < m.step.machine.frames.length) :
    m.step.machine.CalledFrom (caller :: callers) globals := by
  obtain ⟨frame, between, hframes, hwaiting⟩ := h.exists_cons
  rcases effect_step hframes with ⟨instr, -, heffect⟩ | hkept
  · generalize m.step.machine = m' at heffect hstays
    cases heffect with
    | stays hglobals =>
      refine ⟨hwaiting.trans (List.suffix_cons _ _), hstays, h.replaced.trans (hglobals ?_)⟩
      -- A frame that has been called does not run the script.
      rw [hframes] at hstacked
      cases between with
      | nil => exact absurd (List.suffix_nil.1 hwaiting) nofun
      | cons => exact hstacked.1.isModule
    | enters =>
      refine ⟨?_, hstays, h.replaced⟩
      exact (hwaiting.trans (List.suffix_cons _ _)).trans (List.suffix_cons _ _)
    | leaves _ _ hbetween =>
      subst hbetween
      refine ⟨?_, hstays, h.replaced⟩
      rcases List.suffix_cons_iff.1 hwaiting with heq | houter
      · exact absurd (congrArg List.length heq) (Nat.ne_of_lt hstays)
      · exact houter.trans (List.suffix_cons _ _)
    | finishes => exact absurd hstays (Nat.not_lt_zero _)
  · rw [hkept]
    exact h

/-- A step to the frames that wait is the return of the activation above them, whose topmost operand
    goes to its caller. -/
theorem returns (h : m.CalledFrom (caller :: callers) globals)
    (hreturns : m.step.machine.frames.length = callers.length + 1) :
    ∃ activation v stack, m.frames = activation :: caller :: callers ∧
      activation.code.instrs[activation.next]? = some .leave ∧ activation.stack = v :: stack ∧
      m.step.machine = { m with frames := caller.push v :: callers } := by
  have habove := h.above
  obtain ⟨activation, between, hframes, hwaiting⟩ := h.exists_cons
  have hle := hwaiting.length_le
  rw [List.length_cons] at hle
  rcases effect_step hframes with ⟨instr, hinstr, heffect⟩ | hkept
  · generalize m.step.machine = m' at heffect hreturns
    cases heffect with
    | stays | enters =>
      simp only [List.length_cons] at hreturns
      omega
    | leaves hleave hstack hbetween =>
      subst hleave hbetween
      obtain ⟨rfl, rfl⟩ := List.cons.inj (hwaiting.eq_of_length hreturns.symm)
      exact ⟨activation, _, _, hframes, hinstr, hstack, rfl⟩
    | finishes => cases hreturns
  · rw [hkept] at hreturns
    exact absurd hreturns (Nat.ne_of_gt habove)

end CalledFrom

end Machine

namespace Execution

variable {σ : Type} {w : Watcher σ} {e e' origin first : Execution} {s s' s₀ s₁ : σ}
  {program : Program} {caller : Frame} {callers : List Frame} {globals : Bindings (Value Code)}

/-- The states that a run comes to, instruction by instruction, while there are more than `depth`
    frames. -/
inductive StaysAbove (w : Watcher σ) (depth : Nat) (first : Execution) (s₀ : σ) :
    Execution → σ → Prop
  | start : StaysAbove w depth first s₀ first s₀
  | begins {e : Execution} {s : σ} (h : StaysAbove w depth first s₀ e s)
      (hgoes : e.isTerminated = false) :
      StaysAbove w depth first s₀ { e with control := .running } s
  | step {e e' : Execution} {s s' : σ} {ending : Option Outcome}
      (h : StaysAbove w depth first s₀ e s) (hrunning : e.control = .running)
      (hstep : e.step w s = (ending, e', s')) (hstays : depth < e'.machine.frames.length) :
      StaysAbove w depth first s₀ e' s'
  | pauses {e e' : Execution} {s s' : σ} {line : Line} (h : StaysAbove w depth first s₀ e s)
      (hrunning : e.control = .running) (hstep : e.step w s = (some (.paused line), e', s'))
      (hstays : depth < e'.machine.frames.length) :
      StaysAbove w depth first s₀ { e' with control := .paused line } s'

/-- They are among those that the run comes to. -/
theorem StaysAbove.visits {depth : Nat} (h : StaysAbove w depth first s₀ e s)
    (hfirst : Visits w origin s₁ first s₀) : Visits w origin s₁ e s := by
  induction h with
  | start => exact hfirst
  | begins _ hgoes ih => exact ih.begins hgoes
  | step _ hrunning hstep _ ih => exact ih.step hrunning hstep
  | pauses _ hrunning hstep _ ih => exact ih.pauses hrunning hstep

/-- The frames below an activation wait on through all states of a run while it is under way. -/
theorem StaysAbove.calledFrom
    (hintact : ∀ {e s}, Visits w origin s₁ e s → e.Intact program)
    (hfirst : Visits w origin s₁ first s₀)
    (hcalled : first.machine.CalledFrom (caller :: callers) globals)
    (h : StaysAbove w (callers.length + 1) first s₀ e s) :
    e.machine.CalledFrom (caller :: callers) globals := by
  have hnext : ∀ {e e' s s' ending}, StaysAbove w (callers.length + 1) first s₀ e s →
      e.machine.CalledFrom (caller :: callers) globals → e.step w s = (ending, e', s') →
      callers.length + 1 < e'.machine.frames.length →
      e'.machine.CalledFrom (caller :: callers) globals := by
    intro e e' s s' ending h ih hstep hstays
    rw [machine_of_step hstep] at hstays ⊢
    exact ih.step (hintact (h.visits hfirst)).stacked hstays
  induction h with
  | start => exact hcalled
  | begins _ _ ih => exact ih
  | step h _ hstep hstays ih => exact hnext h ih hstep hstays
  | pauses h _ hstep hstays ih =>
    have hkept := hnext h ih hstep hstays
    exact hkept

/-- A call leaves its caller alone. In every run of a program, whatever watches it, let a step add a
    frame to those that there are. It runs a call, which takes a function and its arguments from
    the operands of the innermost frame and enters the function. While this activation is under way,
    through all steps, nested calls and pauses, the frames below it are as that frame was left and
    as the others were, and the script has bound the same names: nothing has happened to its
    bindings but that items of lists were replaced. A step after which there are as many frames as
    before the call is the return of that activation. It puts one value, which the activation
    returns, onto the operands that the call left, and changes nothing else. -/
theorem Visits.returns_to_caller {limit : Nat} {source : String} {code : Code} {maxDepth : Nat}
    {traced : Bool} {frame : Frame} {e₁ : Execution} {ending : Option Outcome}
    (hparse : Program.parse limit source = .ok program) (hcompile : program.compile = .ok code)
    (h : Visits w (Execution.start code maxDepth traced) s₀ e s) (hrunning : e.control = .running)
    (hframes : e.machine.frames = frame :: callers) (hcall : e.step w s = (ending, e₁, s₁))
    (henters : e₁.machine.frames.length = e.machine.frames.length + 1) :
    ∃ args callee rest, frame.code.instrs[frame.next]? = some (.call args.length) ∧
      frame.stack = args.reverse ++ .function callee :: rest ∧
      e₁.machine = { e.machine with
        frames := .enter callee (Bindings.ofList (callee.params.zip args)) ::
          { frame with next := frame.next + 1, stack := rest } :: callers } ∧
      ∀ e₂ s₂, StaysAbove w e.machine.frames.length e₁ s₁ e₂ s₂ →
        { frame with next := frame.next + 1, stack := rest } :: callers <:+ e₂.machine.frames ∧
        e.machine.globals.ItemsReplaced e₂.machine.globals ∧
        e₂.machine.globals.names = e.machine.globals.names ∧
        ∀ ending e₃ s₃, e₂.step w s₂ = (ending, e₃, s₃) →
          e₃.machine.frames.length = e.machine.frames.length →
          ∃ activation v stack, e₂.machine.frames =
              activation :: { frame with next := frame.next + 1, stack := rest } :: callers ∧
            activation.code.instrs[activation.next]? = some .leave ∧
            activation.stack = v :: stack ∧
            e₃.machine.frames =
              { frame with next := frame.next + 1, stack := v :: rest } :: callers ∧
            e.machine.globals.ItemsReplaced e₃.machine.globals ∧
            e₃.machine.globals.names = e.machine.globals.names := by
  have hlegal := Program.isLegal_of_parse hparse hcompile
  obtain ⟨-, rfl⟩ := Program.compile_eq_ok_iff.1 hcompile
  rw [machine_of_step hcall] at henters
  obtain ⟨args, callee, rest, hinstr, hstack, hentered⟩ := Machine.exists_call hframes henters
  rw [← machine_of_step hcall] at hentered
  -- The call establishes the invariant that carries the activation: the caller lies untouched below
  -- it, and the globals are those at the call.
  have hcalled : e₁.machine.CalledFrom
      ({ frame with next := frame.next + 1, stack := rest } :: callers) e.machine.globals := by
    rw [hentered]
    exact ⟨List.suffix_cons _ _, Nat.lt_succ_self _, .refl⟩
  refine ⟨args, callee, rest, hinstr, hstack, hentered, fun e₂ s₂ hstays => ?_⟩
  rw [hframes] at hstays ⊢
  have hactivation := hstays.calledFrom (Visits.intact hlegal) (h.step hrunning hcall) hcalled
  refine ⟨hactivation.below, hactivation.replaced, hactivation.replaced.names_eq, ?_⟩
  -- A step back to the depth of the caller can only be the `leave` of the activation.
  intro ending e₃ s₃ hstep hreturns
  rw [machine_of_step hstep] at hreturns ⊢
  obtain ⟨activation, v, stack, hbelow, hleave, hvalue, hreturned⟩ := hactivation.returns hreturns
  rw [hreturned]
  exact ⟨activation, v, stack, hbelow, hleave, hvalue, rfl, hactivation.replaced,
    hactivation.replaced.names_eq⟩

/-- A function that assigns to an item of a list of the script. -/
def meddling : Definition :=
  ⟨2, "f", ["n"], [.assignItem 3 "xs" (.int 0) (.ident "n"), .leave 4 (some (.ident "n"))], 6⟩

/-- A script that calls the function in the middle of an expression. -/
def meddler : Program :=
  [.assign 1 "xs" (.list [.int 0]), .define 2 "f" ["n"] meddling.body 6,
    .expr 5 (.binary .add (.int 1) (.call (.ident "f") [.int 7]))]

/-- The script is about to call the function. -/
def meddlerCalls : Execution where
  machine :=
    { frames := [{ Frame.enter meddler.emit .empty with
          next := 11, stack := [.int 7, .function meddling.code, .int 1], line := 5 }]
      globals :=
        (Bindings.empty.insert "xs" (.list [.int 0])).insert "f" (.function meddling.code)
      maxDepth := 5 }
  control := .running
  traced := true

/-- The function is about to return. -/
def meddlerReturns : Execution where
  machine :=
    { frames := { Frame.enter meddling.code (Bindings.empty.insert "n" (.int 7)) with
          next := 6, stack := [.int 7], line := 4 } ::
        [{ Frame.enter meddler.emit .empty with next := 12, stack := [.int 1], line := 5 }]
      globals :=
        (Bindings.empty.insert "xs" (.list [.int 7])).insert "f" (.function meddling.code)
      maxDepth := 5 }
  control := .running
  traced := true

/-- When the function of the script above returns, after two pauses, it gives its value to the
    expression that it was called in, and the script has the list with the new item. -/
theorem Visits.returns_to_caller_meddler :
    Program.parse 20 "xs = [0]\ndef f(n) \x7b\nxs[0] = n\nreturn n \x7d\n1 + f(7)" = .ok meddler ∧
      Visits heedless (Execution.start meddler.emit 5 true) () meddlerCalls () ∧
      ∃ e₁ e₃, meddlerCalls.step heedless () = (none, e₁, ()) ∧
        StaysAbove heedless 1 e₁ () meddlerReturns () ∧
        meddlerReturns.step heedless () = (none, e₃, ()) ∧ ∃ v,
          e₃.machine.frames =
            [{ Frame.enter meddler.emit .empty with next := 12, stack := [v, .int 1], line := 5 }] ∧
          meddlerCalls.machine.globals.ItemsReplaced e₃.machine.globals := by
  have hparse : Program.parse 20 "xs = [0]\ndef f(n) \x7b\nxs[0] = n\nreturn n \x7d\n1 + f(7)" =
      .ok meddler := by cbv
  have hstart : Visits heedless (Execution.start meddler.emit 5 true) () _ () := .start
  have hlist := ((((hstart.pauses rfl rfl).begins rfl).step rfl rfl).step rfl rfl).step rfl rfl
  have hfunction := (((hlist.pauses rfl rfl).begins rfl).step rfl rfl).step rfl rfl
  have hcalls : Visits heedless (Execution.start meddler.emit 5 true) () meddlerCalls () :=
    ((((hfunction.pauses rfl rfl).begins rfl).step rfl rfl).step rfl rfl).step rfl rfl
  have habove := Nat.lt_succ_self 1
  have hentry : StaysAbove heedless 1 (meddlerCalls.step heedless ()).2.1 () _ () := .start
  have hitem := ((((hentry.pauses rfl rfl habove).begins rfl).step rfl rfl habove).step rfl rfl
    habove).step rfl rfl habove
  have hstays : StaysAbove heedless 1 (meddlerCalls.step heedless ()).2.1 () meddlerReturns () :=
    ((hitem.pauses rfl rfl habove).begins rfl).step rfl rfl habove
  obtain ⟨_, _, rest, -, -, -, hreturns⟩ :=
    Visits.returns_to_caller hparse rfl hcalls rfl rfl rfl rfl
  obtain ⟨-, -, -, hreturns⟩ := hreturns _ _ hstays
  obtain ⟨activation, v, stack, hframes, -, -, hreturned, hreplaced, -⟩ := hreturns _ _ _ rfl rfl
  cases hframes
  exact ⟨hparse, hcalls, _, _, rfl, hstays, rfl, v, hreturned, hreplaced⟩

end Execution

end Linewise
