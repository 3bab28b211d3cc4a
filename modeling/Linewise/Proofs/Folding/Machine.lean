import Linewise.Proofs.Folding.Weaving
import Linewise.Proofs.Machine.Step
import Linewise.Proofs.Machine.Trace
import Linewise.Proofs.Value.Map

/-!
# Machines that run both codes

A machine that runs the codes with signs folded and one that runs the codes as they stand are the
two sides of a *twin* (`TwinMachine`): their values differ in nothing but the codes of functions,
and their addresses in nothing but where the codes put them.

An instruction that holds nothing does the same on both sides (`TwinMachine.execute_twins`). A
number takes one step on one side, and a step more for each sign on the other. So the next step that
is more than a sign is the same on both sides (`TwinMachine.exists_step`), and by induction both
sides show the same (`TwinMachine.runs`), come to the same steps (`TwinMachine.reaches`) and to the
same end (`TwinMachine.ends`).
-/

namespace Linewise

/-- Signs are folded into numbers, or not. -/
inductive Side
  | folded
  | plain

namespace Side

/-- The code that a definition has on a side. -/
def code : Side → Foldable → Code
  | folded => Foldable.folded
  | plain => Foldable.plain

theorem keepsHandles_code (side : Side) : KeepsHandles side.code := by
  cases side
  · exact Foldable.keepsHandles_folded
  · exact Foldable.keepsHandles_plain

/-- The address on a side of what has the address `n` when signs are folded. -/
def address (shift : Nat → Nat) : Side → Nat → Nat
  | folded, n => n
  | plain, n => shift n

end Side

/-! ## Twins -/

namespace Value

/-- The value as it is on a side. -/
abbrev on (side : Side) (v : Value Foldable) : Value Code := v.map side.code

end Value

/-- An activation of a code on both sides. -/
structure TwinFrame where
  folded : Code
  plain : Code
  shift : Nat → Nat
  weaves : Code.Weaves shift folded plain
  next : Nat
  stack : List (Value Foldable)
  locals : Bindings (Value Foldable)
  /-- For each open loop, how many items have been taken, and those left. -/
  loops : List (Nat × List (Value Foldable))
  line : Line

/-- The loop as it is on a side. -/
def OpenLoop.on (side : Side) (loop : Nat × List (Value Foldable)) : OpenLoop :=
  ⟨loop.1, loop.2.map (Value.on side)⟩

namespace TwinFrame

/-- The code of the frame on a side. -/
def code (f : TwinFrame) : Side → Code
  | .folded => f.folded
  | .plain => f.plain

/-- The frame as it is on a side. -/
def on (side : Side) (f : TwinFrame) : Frame where
  code := f.code side
  next := side.address f.shift f.next
  stack := f.stack.map (Value.on side)
  locals := f.locals.map (Value.on side)
  loops := f.loops.map (OpenLoop.on side)
  line := f.line

@[simp]
theorem name_on (f : TwinFrame) (side : Side) : (f.on side).code.name = f.folded.name := by
  cases side
  · rfl
  · exact f.weaves.name_eq

@[simp]
theorem isModule_on (f : TwinFrame) (side : Side) :
    (f.on side).code.isModule = f.folded.isModule := by
  rw [Code.isModule, name_on, Code.isModule]

/-- A frame that moves on does so on both sides. -/
theorem on_succ (f : TwinFrame) (hshift : f.shift (f.next + 1) = f.shift f.next + 1) (side : Side) :
    { f.on side with next := (f.on side).next + 1 } =
      ({ f with next := f.next + 1 } : TwinFrame).on side := by
  cases side
  · rfl
  · simp [on, Side.address, hshift, code]

/-- A frame that is about to run the first instruction of its code. -/
def enter {folded plain : Code} {shift : Nat → Nat} (weaves : Code.Weaves shift folded plain)
    (locals : Bindings (Value Foldable)) : TwinFrame :=
  ⟨folded, plain, shift, weaves, 0, [], locals, [], folded.firstLine⟩

/-- A frame that is about to run its code is so on either side. -/
theorem on_enter {folded plain : Code} {shift : Nat → Nat} (weaves : Code.Weaves shift folded plain)
    (locals : Bindings (Value Foldable)) (side : Side) :
    (enter weaves locals).on side =
      .enter ((enter weaves locals).code side) (locals.map (Value.on side)) := by
  cases side
  · rfl
  · simp [on, enter, Frame.enter, Side.address, code, weaves.shift_zero, weaves.firstLine_eq]

end TwinFrame

/-- A machine on both sides. -/
structure TwinMachine where
  frames : List TwinFrame
  globals : Bindings (Value Foldable)
  maxDepth : Nat

/-- The machine as it is on a side. -/
def TwinMachine.on (side : Side) (t : TwinMachine) : Machine where
  frames := t.frames.map (TwinFrame.on side)
  globals := t.globals.map (Value.on side)
  maxDepth := t.maxDepth

/-- What a step does on both sides. -/
inductive TwinProgress
  | next (t : TwinMachine)
  | printed (text : String) (t : TwinMachine)
  | atLine (line : Line) (t : TwinMachine)
  | finished (t : TwinMachine)
  | faulted (fault : Fault) (t : TwinMachine)

/-- What a step does on a side. -/
def TwinProgress.on (side : Side) : TwinProgress → Machine.Progress
  | next t => .next (t.on side)
  | printed text t => .printed text (t.on side)
  | atLine line t => .atLine line (t.on side)
  | finished t => .finished (t.on side)
  | faulted fault t => .faulted fault (t.on side)

/-- The same is done on both sides. -/
def Machine.Progress.Twins (progress : Side → Machine.Progress) : Prop :=
  ∃ p : TwinProgress, ∀ side, progress side = p.on side

namespace TwinMachine

open Machine.Progress (Twins)

/-! ## Parts of instructions -/

/-- The machine with `f` as its innermost frame. -/
def withFrame (t : TwinMachine) (f : TwinFrame) (callers : List TwinFrame) : TwinMachine :=
  { t with frames := f :: callers }

section Instructions

variable (t : TwinMachine) (f : TwinFrame) (callers : List TwinFrame) (line : Line)

/-- A name means the same on both sides. -/
theorem resolve?_twins (name : String) : ∃ found : Option (Machine.Home × Value Foldable),
    ∀ side, (t.on side).resolve? (f.on side) name =
      found.map fun (home, v) => (home, v.on side) := by
  have hlocal : ∀ side, (f.on side).locals.find? name =
      (f.locals.find? name).map (Value.on side) := fun side => Bindings.find?_map _ _
  have hglobal : ∀ side, (t.on side).globals.find? name =
      (t.globals.find? name).map (Value.on side) := fun side => Bindings.find?_map _ _
  refine ⟨((if f.folded.isModule then none else f.locals.find? name).map (Machine.Home.local, ·)).or
    (((t.globals.find? name).map (Machine.Home.global, ·)).or
      ((Builtin.ofName? name).map fun b => (Machine.Home.builtin, .builtin b))), fun side => ?_⟩
  rw [Machine.resolve?, f.isModule_on side, hlocal, hglobal]
  cases f.folded.isModule <;> cases f.locals.find? name <;> cases t.globals.find? name <;>
    simp [Function.comp_def]

/-- A name is bound alike on both sides. -/
theorem bindAt_twins (home : Machine.Home) (name : String) (v : Value Foldable) :
    ∃ t' : TwinMachine, ∀ side, (t.on side).bindAt (f.on side) (callers.map (TwinFrame.on side))
      home name (v.on side) = t'.on side := by
  cases home with
  | «local» =>
    refine ⟨t.withFrame { f with locals := f.locals.insert name v } callers, fun side => ?_⟩
    have hinsert : (f.on side).locals.insert name (v.on side) =
        (f.locals.insert name v).map (Value.on side) := Bindings.insert_map _ _
    rw [Machine.bindAt, hinsert]
    rfl
  | global =>
    refine ⟨{ t.withFrame f callers with globals := t.globals.insert name v }, fun side => ?_⟩
    have hinsert : (t.on side).globals.insert name (v.on side) =
        (t.globals.insert name v).map (Value.on side) := Bindings.insert_map _ _
    rw [Machine.bindAt, hinsert]
    rfl
  | builtin => exact ⟨t.withFrame f callers, fun _ => rfl⟩

theorem failWith_twins (stack : List (Value Foldable)) (cause : Cause) :
    Twins fun side => (t.on side).failWith (f.on side) (callers.map (TwinFrame.on side)) line
      (stack.map (Value.on side)) cause :=
  ⟨.faulted (.onLine cause line) (t.withFrame { f with stack } callers), fun _ => rfl⟩

/-- The result of an operation is pushed alike on both sides, or faults alike. -/
theorem pushResult_twins (stack : List (Value Foldable)) (result : Except Cause (Value Foldable)) :
    Twins fun side => (t.on side).pushResult (f.on side) (callers.map (TwinFrame.on side)) line
      (stack.map (Value.on side)) (result.map (Value.on side)) := by
  cases result with
  | error cause => exact t.failWith_twins f callers line stack cause
  | ok v => exact ⟨.next (t.withFrame { f with stack := v :: stack } callers), fun _ => rfl⟩

/-- A function is entered alike on both sides: it has the same name and parameters there, so the
    same complaints are made of its arguments, and its codes weave. -/
theorem enter_twins (stack : List (Value Foldable)) (d : Foldable) (args : List (Value Foldable)) :
    Twins fun side => (t.on side).enter (f.on side) (callers.map (TwinFrame.on side)) line
      (stack.map (Value.on side)) (side.code d) (args.map (Value.on side)) := by
  have hname : ∀ side : Side, (side.code d).name = d.name := by rintro (_ | _) <;> rfl
  have hparams : ∀ side : Side, (side.code d).params = d.params := by rintro (_ | _) <;> rfl
  have hdepth : ∀ side, (t.on side).maxDepth = t.maxDepth := fun _ => rfl
  simp only [Machine.enter, hname, hparams, hdepth, List.length_map]
  split
  · exact t.failWith_twins f callers line stack _
  split
  · exact t.failWith_twins f callers line stack _
  -- The new frame runs codes that weave, with its locals bound to values on both sides.
  · obtain ⟨shift, hweaves⟩ := d.exists_weaves
    let locals := Bindings.ofList (d.params.zip args)
    refine ⟨.next (t.withFrame (.enter hweaves locals) ({ f with stack } :: callers)),
      fun side => ?_⟩
    have hlocals : Bindings.ofList (d.params.zip (args.map (Value.on side))) =
        locals.map (Value.on side) := by
      rw [List.zip_map_right]
      exact Bindings.ofList_map (Value.on side) _
    have henter : (TwinFrame.enter hweaves locals).on side =
        .enter (side.code d) (locals.map (Value.on side)) := by
      rw [TwinFrame.on_enter]
      cases side <;> rfl
    dsimp only
    rw [hlocals, ← henter]
    rfl

/-- A value is called alike on both sides. -/
theorem call_twins (stack : List (Value Foldable)) (callee : Value Foldable)
    (args : List (Value Foldable)) :
    Twins fun side => (t.on side).call (f.on side) (callers.map (TwinFrame.on side)) line
      (stack.map (Value.on side)) (callee.on side) (args.map (Value.on side)) := by
  cases callee with
  | function d => exact t.enter_twins f callers line stack d args
  | builtin b =>
    simp only [Value.map, Machine.call, Builtin.call_map (Side.keepsHandles_code _)]
    -- What a built-in function gives does not depend on the codes of functions among its arguments.
    cases b.call args with
    | error cause => exact t.failWith_twins f callers line stack cause
    | ok reply =>
      let t' := t.withFrame { f with stack := reply.value :: stack } callers
      obtain ⟨value, _ | text⟩ := reply
      · exact ⟨.next t', fun _ => rfl⟩
      · exact ⟨.printed text t', fun _ => rfl⟩
  | _ =>
    simp only [Value.map, Machine.call, Value.kind]
    exact t.failWith_twins f callers line stack _

/-- An item of a list is replaced alike on both sides. -/
theorem storeItem_twins (stack : List (Value Foldable)) (name : String)
    (index item : Value Foldable) :
    Twins fun side => (t.on side).storeItem (f.on side) (callers.map (TwinFrame.on side)) line
      (stack.map (Value.on side)) name (index.on side) (item.on side) := by
  obtain ⟨found, hfound⟩ := t.resolve?_twins f name
  simp only [Machine.storeItem_eq, hfound]
  cases found with
  | none => exact t.failWith_twins f callers line stack _
  | some found =>
    simp only [Option.map_some, Value.replaceAt_map]
    cases found.2.replaceAt index item with
    | error cause => exact t.failWith_twins f callers line stack cause
    | ok updated =>
      obtain ⟨t', ht'⟩ := t.bindAt_twins { f with stack } callers found.1 name updated
      exact ⟨.next t', fun side => congrArg Machine.Progress.next (ht' side)⟩

/-- The next item of a loop is taken alike on both sides. -/
theorem nextItem_twins (exit : Nat) :
    Twins fun side => (t.on side).nextItem (f.on side) (callers.map (TwinFrame.on side)) line
      (side.address f.shift exit) := by
  obtain ⟨folded, plain, shift, weaves, next, stack, locals, loops, _⟩ := f
  rcases loops with _ | ⟨⟨taken, _ | ⟨item, rest⟩⟩, outer⟩
  · exact t.failWith_twins _ callers line stack _
  · exact ⟨.next (t.withFrame ⟨_, _, _, weaves, exit, stack, locals, outer, _⟩ callers),
      fun _ => rfl⟩
  · exact ⟨.next (t.withFrame ⟨_, _, _, weaves, next, item :: stack, locals,
      (taken + 1, rest) :: outer, _⟩ callers), fun _ => rfl⟩

/-- A function is left alike on both sides. -/
theorem leave_twins (v : Value Foldable) :
    Twins fun side => (t.on side).leave (callers.map (TwinFrame.on side)) (v.on side) := by
  cases callers with
  | nil => exact ⟨.finished { t with frames := [] }, fun _ => rfl⟩
  | cons caller outer =>
    exact ⟨.next (t.withFrame { caller with stack := v :: caller.stack } outer), fun _ => rfl⟩

section Pop

/-- What is done with an operand is done alike on both sides if it is for any. -/
theorem pop_twins {use : Side → Value Code → List (Value Code) → Machine.Progress}
    (huse : ∀ (v : Value Foldable) (stack : List (Value Foldable)),
      Twins fun side => use side (v.on side) (stack.map (Value.on side))) :
    Twins fun side => (t.on side).pop (f.on side) (callers.map (TwinFrame.on side)) line
      (use side) := by
  obtain ⟨folded, plain, shift, weaves, next, stack, locals, loops, _⟩ := f
  cases stack with
  | nil => exact t.failWith_twins _ callers line [] _
  | cons v stack => exact huse v stack

/-- What is done with two operands is done alike on both sides if it is for any two. -/
theorem popTwo_twins {use : Side → Value Code → Value Code → List (Value Code) → Machine.Progress}
    (huse : ∀ (v w : Value Foldable) (stack : List (Value Foldable)),
      Twins fun side => use side (v.on side) (w.on side) (stack.map (Value.on side))) :
    Twins fun side => (t.on side).popTwo (f.on side) (callers.map (TwinFrame.on side)) line
      (use side) := by
  obtain ⟨folded, plain, shift, weaves, next, stack, locals, loops, _⟩ := f
  rcases stack with _ | ⟨w, _ | ⟨v, stack⟩⟩
  · exact t.failWith_twins _ callers line [] _
  · exact t.failWith_twins _ callers line [] _
  · exact huse v w stack

/-- What is done with several operands is done alike on both sides if it is for any of them. -/
theorem popMany_twins {use : Side → List (Value Code) → List (Value Code) → Machine.Progress}
    {count : Nat}
    (huse : ∀ items stack : List (Value Foldable),
      Twins fun side => use side (items.map (Value.on side)) (stack.map (Value.on side))) :
    Twins fun side => (t.on side).popMany (f.on side) (callers.map (TwinFrame.on side)) line count
      (use side) := by
  have hstack : ∀ side, (f.on side).stack = f.stack.map (Value.on side) := fun _ => rfl
  simp only [Machine.popMany, hstack, List.length_map, ← List.map_take, ← List.map_drop,
    ← List.map_reverse]
  split
  · exact huse _ _
  · exact t.failWith_twins f callers line f.stack _

end Pop

end Instructions

/-! ## Instructions -/

/-- An instruction that holds nothing does the same on both sides. -/
theorem execute_twins (t : TwinMachine) (f : TwinFrame) (callers : List TwinFrame) (line : Line)
    {instr : Instr} (hinstr : instr.isBearing = false) :
    Twins fun side => (t.on side).execute (f.on side) (callers.map (TwinFrame.on side)) line
      (instr.move (side.address f.shift)) := by
  have hstay : ∀ f', Twins fun side => Machine.Progress.next
      ((t.on side).withFrame (TwinFrame.on side f') (callers.map (TwinFrame.on side))) :=
    fun f' => ⟨.next (t.withFrame f' callers), fun _ => rfl⟩
  -- Each instruction is made of operations that do the same on both sides. Those that bear code, or
  -- numbers, are not among these.
  cases instr with
  | line reached =>
    exact ⟨.atLine reached (t.withFrame { f with line := reached } callers), fun _ => rfl⟩
  | const _ => cases hinstr
  | makeFunction _ => cases hinstr
  | load name =>
    obtain ⟨found, hfound⟩ := t.resolve?_twins f name
    simp only [Instr.move, Machine.execute, hfound]
    cases found with
    | none => exact t.failWith_twins f callers line f.stack _
    | some found => exact hstay { f with stack := found.2 :: f.stack }
  | store name =>
    -- Whether a name is bound globally is told from the name of the code, which both sides share.
    have hhome : ∀ side,
        Machine.assignmentHome (f.on side) = Machine.assignmentHome (f.on .folded) :=
      fun side => by simp [Machine.assignmentHome]
    simp only [Instr.move, Machine.execute, hhome]
    refine t.pop_twins f callers line fun v stack => ?_
    obtain ⟨t', ht'⟩ := t.bindAt_twins { f with stack } callers
      (Machine.assignmentHome (f.on .folded)) name v
    exact ⟨.next t', fun side => congrArg Machine.Progress.next (ht' side)⟩
  | storeIndex name =>
    exact t.popTwo_twins f callers line fun index item stack =>
      t.storeItem_twins f callers line stack name index item
  | buildList count =>
    simp only [Instr.move, Machine.execute]
    refine t.popMany_twins f callers line fun items stack => ?_
    have hlist : ∀ side : Side, .list (items.map (Value.on side)) = (Value.list items).on side :=
      fun side => congrArg Value.list (Value.mapItems_eq_map side.code items).symm
    simp only [hlist]
    exact hstay { f with stack := .list items :: stack }
  | index =>
    refine t.popTwo_twins f callers line fun object index stack => ?_
    simp only [Value.subscript_map]
    exact t.pushResult_twins f callers line stack _
  | unary op =>
    refine t.pop_twins f callers line fun operand stack => ?_
    simp only [Value.applyUnary_map]
    exact t.pushResult_twins f callers line stack _
  | binary op =>
    refine t.popTwo_twins f callers line fun left right stack => ?_
    simp only [Value.applyBinary_map (Side.keepsHandles_code _)]
    exact t.pushResult_twins f callers line stack _
  | jump target => exact hstay { f with next := target }
  | jumpIfFalse target =>
    refine t.pop_twins f callers line fun v stack => ?_
    simp only [Value.isTruthy_map]
    cases v.isTruthy
    · exact hstay { f with stack, next := target }
    · exact hstay { f with stack }
  | jumpIfFalseOrPop target | jumpIfTrueOrPop target =>
    refine t.pop_twins f callers line fun v stack => ?_
    simp only [Value.isTruthy_map]
    cases v.isTruthy
    all_goals first | exact hstay { f with next := target } | exact hstay { f with stack }
  | call argc =>
    simp only [Instr.move, Machine.execute]
    refine t.popMany_twins f callers line fun args stack => ?_
    cases stack with
    | nil => exact t.failWith_twins f callers line [] _
    | cons callee stack => exact t.call_twins f callers line stack callee args
  | leave => exact t.pop_twins f callers line fun v _ => t.leave_twins callers v
  | pop => exact t.pop_twins f callers line fun _ stack => hstay { f with stack }
  | iterStart =>
    refine t.pop_twins f callers line fun v stack => ?_
    simp only [Value.iterate_map]
    cases v.iterate with
    | error cause => exact t.failWith_twins f callers line stack cause
    | ok items => exact hstay { f with stack, loops := (0, items) :: f.loops }
  | iterNext exit => exact t.nextItem_twins f callers line exit
  | iterDrop =>
    have htail : ∀ side, (f.on side).loops.tail = f.loops.tail.map (OpenLoop.on side) :=
      fun _ => List.map_tail.symm
    simp only [Instr.move, Machine.execute, htail]
    exact hstay { f with loops := f.loops.tail }

end TwinMachine

/-! ## Signs -/

/-- The signs in front of a number are applied to it one after the other. -/
theorem Signed.runs {m : Machine} {frame : Frame} {callers : List Frame} {total : Nat}
    {u v : Value Foldable} {rest : List Instr} (hframes : m.frames = frame :: callers)
    (hcode : frame.code.instrs.drop frame.next =
      .const u.plain :: (List.replicate total (.unary .neg) ++ rest)) {signs : Nat}
    (hsigned : Signed signs u v) (hle : signs ≤ total) :
    ∃ m₁, m.Runs signs [] m₁ ∧ m₁.step = .next (m.withFrame
      { frame with next := frame.next + (signs + 1), stack := v.plain :: frame.stack }
      callers) := by
  have hinstr : ∀ i, frame.code.instrs[frame.next + i]? =
      (.const u.plain :: (List.replicate total (.unary .neg) ++ rest))[i]? :=
    fun i => by rw [← hcode, List.getElem?_drop]
  induction hsigned with
  | zero u => exact ⟨m, .refl m, Machine.step_eq_execute hframes (hinstr 0)⟩
  | @succ signs u v v' h hneg ih =>
    obtain ⟨m₁, hruns, hstep⟩ := ih hcode (Nat.le_of_succ_le hle) hinstr
    have hnext := hruns.trans (.next hstep (.refl _))
    have hsign : frame.code.instrs[frame.next + (signs + 1)]? = some (.unary .neg) := by
      rw [hinstr, List.getElem?_cons_succ, List.getElem?_append_left (by simpa using hle),
        List.getElem?_replicate_of_lt hle]
    refine ⟨_, hnext, ?_⟩
    rw [Machine.step_eq_execute rfl hsign, Machine.execute, Machine.pop]
    simp only [Value.applyUnary_map, hneg]
    rfl

/-! ## Steps -/

/-- A run shows some sights and comes to a step that does something. -/
def Machine.Reaches (m : Machine) (sights : List Sight) (progress : Machine.Progress) : Prop :=
  ∃ n m₁, m.Runs n sights m₁ ∧ m₁.step = progress

namespace TwinMachine

/-- Both sides come to a step that does the same, which is the next one up to signs. -/
theorem exists_step (t : TwinMachine) :
    ∃ p : TwinProgress, ∀ side, (t.on side).Reaches [] (p.on side) := by
  rcases hempty : t.frames with _ | ⟨f, callers⟩
  · refine ⟨.finished t, fun side => ⟨0, _, .refl _, ?_⟩⟩
    have hframes : (t.on side).frames = [] := congrArg (List.map (TwinFrame.on side)) hempty
    rw [Machine.step, hframes]
    rfl
  have hframes : ∀ side, (t.on side).frames = f.on side :: callers.map (TwinFrame.on side) :=
    fun side => congrArg (List.map (TwinFrame.on side)) hempty
  have hwoven := f.weaves.woven f.next
  generalize hfolded : f.folded.instrs.drop f.next = instrs at hwoven
  generalize hplain : f.plain.instrs.drop (f.shift f.next) = instrs' at hwoven
  -- The instruction that comes next is the first one of those that are left.
  have hinstr : ∀ side, (f.on side).code.instrs[(f.on side).next]? =
      match side with | .folded => instrs.head? | .plain => instrs'.head? := by
    rintro (_ | _)
    · rw [← hfolded, List.head?_drop]; rfl
    · rw [← hplain, List.head?_drop]; rfl
  cases hwoven with
  | nil =>
    refine ⟨if f.folded.isModule then .finished t else
      .faulted (.onLine (.breakdown .fellOffFunction) f.line) t, fun side => ?_⟩
    have hnone : (f.on side).code.instrs[(f.on side).next]? = none := by
      cases side <;> exact hinstr _
    refine ⟨0, _, .refl _, ?_⟩
    simp only [Machine.step, hframes, hnone, f.isModule_on]
    cases f.folded.isModule <;> rfl
  | move instr hbearing hshift _ =>
    obtain ⟨p, hp⟩ := t.execute_twins { f with next := f.next + 1 } callers f.line hbearing
    refine ⟨p, fun side => ⟨0, _, .refl _, ?_⟩⟩
    have hmove : (f.on side).code.instrs[(f.on side).next]? =
        some (instr.move (side.address f.shift)) := by
      rw [hinstr]
      cases side
      · cases instr <;> rfl
      · rfl
    rw [Machine.step_eq_execute (hframes side) hmove, f.on_succ hshift]
    exact hp side
  | makeFunction d hshift _ =>
    let f' : TwinFrame := { f with next := f.next + 1, stack := .function d :: f.stack }
    refine ⟨.next (t.withFrame f' callers), fun side => ⟨0, _, .refl _, ?_⟩⟩
    have hmake : (f.on side).code.instrs[(f.on side).next]? =
        some (.makeFunction (side.code d)) := by
      rw [hinstr]
      cases side <;> rfl
    rw [Machine.step_eq_execute (hframes side) hmake, f.on_succ hshift]
    rfl
  | @number _ signs u v _ _ hsigned hshift _ =>
    let f' : TwinFrame := { f with next := f.next + 1, stack := v :: f.stack }
    refine ⟨.next (t.withFrame f' callers), fun side => ?_⟩
    cases side with
    | folded =>
      exact ⟨0, _, .refl _, Machine.step_eq_execute (hframes .folded) (hinstr .folded)⟩
    | plain =>
      obtain ⟨m, hruns, hstep⟩ := hsigned.runs (hframes .plain) hplain (Nat.le_refl signs)
      refine ⟨signs, m, hruns, hstep.trans ?_⟩
      rw [show (f.on .plain).next + (signs + 1) = (f'.on .plain).next from hshift.symm]
      rfl

end TwinMachine

/-! ## Sights -/

/-- What can be seen of a run on both sides. -/
structure TwinView where
  line : Line
  function : String
  depth : Nat
  bindings : Bindings (Value Foldable)

/-- What can be seen of a run on a side. -/
def TwinView.on (side : Side) (view : TwinView) : FrameView :=
  ⟨view.line, view.function, view.depth, view.bindings.map (Value.on side)⟩

/-- What a run shows on both sides. -/
inductive TwinSight
  | text (text : String)
  | line (view : TwinView)

/-- What a run shows on a side. -/
def TwinSight.on (side : Side) : TwinSight → Sight
  | text printed => .text printed
  | line view => .line (view.on side)

/-- What can be seen of a run is the same on both sides. -/
theorem TwinMachine.exists_view (t : TwinMachine) (line : Line) :
    ∃ view : TwinView, ∀ side, (t.on side).view line = view.on side := by
  rcases hempty : t.frames with _ | ⟨f, callers⟩
  all_goals
    have hframes : ∀ side, (t.on side).frames = _ :=
      fun side => congrArg (List.map (TwinFrame.on side)) hempty
    simp only [Machine.view, hframes]
  · exact ⟨⟨line, Code.moduleName, 0, t.globals⟩, fun _ => rfl⟩
  · refine ⟨⟨line, f.folded.name, callers.length + 1,
      if f.folded.isModule then t.globals else f.locals⟩, fun side => ?_⟩
    simp only [List.map_cons, f.name_on, f.isModule_on]
    cases f.folded.isModule <;> simp [TwinView.on, TwinMachine.on, TwinFrame.on]

namespace TwinProgress

variable (p : TwinProgress)

/-- The machine that a run goes on with on both sides. -/
def next? : TwinProgress → Option TwinMachine
  | next t | printed _ t | atLine _ t => some t
  | finished _ | faulted _ _ => none

theorem next?_on (side : Side) : (p.on side).next? = p.next?.map (TwinMachine.on side) := by
  cases p <;> rfl

theorem exists_sights : ∃ seen : List TwinSight,
    ∀ side, (p.on side).sights = seen.map (TwinSight.on side) := by
  cases p with
  | printed text t => exact ⟨[.text text], fun _ => rfl⟩
  | atLine line t =>
    obtain ⟨view, hview⟩ := t.exists_view line
    exact ⟨[.line view], fun side => congrArg (fun view => [Sight.line view]) (hview side)⟩
  | next t | finished t | faulted fault t => exact ⟨[], fun _ => rfl⟩

end TwinProgress

namespace TwinMachine

variable {t : TwinMachine} {side : Side} {n : Nat} {sights : List Sight} {m : Machine}

/-- What one side shows, both sides show on the way to a twin. From there the one side only has to
    apply some signs to come to the step that both sides do next. -/
theorem runs (h : (t.on side).Runs n sights m) : ∃ (seen : List TwinSight) (t' : TwinMachine),
    sights = seen.map (TwinSight.on side) ∧
      (∀ side', ∃ n', (t.on side').Runs n' (seen.map (TwinSight.on side')) (t'.on side')) ∧
      ∃ (p : TwinProgress) (j : Nat) (m' : Machine),
        (∀ side', (t'.on side').Reaches [] (p.on side')) ∧ m.Runs j [] m' ∧
          m'.step = p.on side := by
  induction n using Nat.strongRecOn generalizing t sights with
  | ind n ih =>
    obtain ⟨p, hp⟩ := t.exists_step
    obtain ⟨k, m₂, hquiet, hstep⟩ := hp side
    -- The machine takes `k` quiet steps to come to what the twin does next. Either the run goes on
    -- past that, or it ends before.
    rcases Nat.lt_or_ge k n with hlt | hge
    · obtain ⟨j, rfl⟩ := Nat.exists_eq_add_of_lt hlt
      obtain ⟨rest, rfl, hrest⟩ := hquiet.split (k := j + 1) h
      cases hrest with
      | head hnext hrest =>
        rw [hstep, p.next?_on] at hnext
        obtain ⟨t₁, ht₁, rfl⟩ := Option.map_eq_some_iff.1 hnext
        obtain ⟨seen, t', rfl, hruns, hlast⟩ := ih j (by omega) hrest
        -- What was done first is done on the other side as well, and then the rest.
        obtain ⟨first, hfirst⟩ := p.exists_sights
        refine ⟨first ++ seen, t', ?_, fun side' => ?_, hlast⟩
        · rw [hstep, hfirst, List.map_append]
        · obtain ⟨k', m', hquiet', hstep'⟩ := hp side'
          obtain ⟨n', hruns'⟩ := hruns side'
          have hgoes : m'.step.next? = some (t₁.on side') := by
            rw [hstep', p.next?_on, ht₁]
            rfl
          have hall := hquiet'.trans (.head hgoes hruns')
          rw [hstep', hfirst, ← List.map_append] at hall
          exact ⟨_, hall⟩
    · obtain ⟨j, rfl⟩ := Nat.exists_eq_add_of_le hge
      obtain ⟨rest, hnil, hrest⟩ := h.split hquiet
      obtain ⟨rfl, rfl⟩ := List.append_eq_nil_iff.1 hnil.symm
      exact ⟨[], t, rfl, fun side' => ⟨0, .refl _⟩, p, j, m₂, hp, hrest, hstep⟩

/-- Both sides show the same and come to the same steps, except that only one may come to the
    application of signs. -/
theorem reaches {progress : Machine.Progress} (h : (t.on side).Reaches sights progress)
    (hmore : ∀ m, progress ≠ .next m) : ∃ (seen : List TwinSight) (p : TwinProgress),
      sights = seen.map (TwinSight.on side) ∧ progress = p.on side ∧
        ∀ side', (t.on side').Reaches (seen.map (TwinSight.on side')) (p.on side') := by
  obtain ⟨n, m, hruns, rfl⟩ := h
  obtain ⟨seen, t', rfl, hboth, p, j, m', hp, hquiet, hstep⟩ := runs hruns
  refine ⟨seen, p, rfl, ?_, fun side' => ?_⟩
  · generalize hnil : ([] : List Sight) = none at hquiet
    cases hquiet with
    | refl => exact hstep
    | head hnext _ =>
      have hsights := (List.append_eq_nil_iff.1 hnil.symm).1
      cases hprogress : m.step with
      | next m => exact absurd hprogress (hmore m)
      | printed text m => rw [hprogress] at hsights; cases hsights
      | atLine line m => rw [hprogress] at hsights; cases hsights
      | finished m => rw [hprogress] at hnext; cases hnext
      | faulted fault m => rw [hprogress] at hnext; cases hnext
  · obtain ⟨n', hruns'⟩ := hboth side'
    obtain ⟨k, m₁, hquiet', hstep'⟩ := hp side'
    have hall := hruns'.trans hquiet'
    rw [List.append_nil] at hall
    exact ⟨_, m₁, hall, hstep'⟩

/-- Both sides come to the same end. -/
theorem ends {outcome : Outcome} (h : (t.on side).Ends sights outcome m) :
    ∃ (seen : List TwinSight) (t' : TwinMachine), sights = seen.map (TwinSight.on side) ∧
      m = t'.on side ∧
        ∀ side', (t.on side').Ends (seen.map (TwinSight.on side')) outcome (t'.on side') := by
  obtain ⟨n, m₁, hruns, hend⟩ := h
  have hmore : ∀ m, m₁.step ≠ .next m := by
    intro m hnext
    rw [hnext] at hend
    cases hend
  obtain ⟨seen, p, rfl, hp, hboth⟩ := reaches ⟨n, m₁, hruns, rfl⟩ hmore
  rw [hp] at hend
  obtain ⟨t', rfl, houtcome⟩ : ∃ t' : TwinMachine, m = t'.on side ∧
      ∀ side', (p.on side').outcome? = some (outcome, t'.on side') := by
    cases p with
    | finished t' | faulted _ t' => cases hend; exact ⟨t', rfl, fun _ => rfl⟩
    | _ => cases hend
  refine ⟨seen, t', rfl, rfl, fun side' => ?_⟩
  obtain ⟨n', m', hruns', hstep'⟩ := hboth side'
  exact ⟨n', m', hruns', hstep' ▸ houtcome side'⟩

end TwinMachine

end Linewise
