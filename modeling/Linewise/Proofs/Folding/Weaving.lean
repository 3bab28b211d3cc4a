import Linewise.Proofs.Code.Layout
import Linewise.Proofs.Evaluation.Realization
import Linewise.Proofs.Syntax.Integers
import Linewise.Proofs.Value.Integer

/-!
# The two codes of a program

A number with signs in front of it is one instruction when the signs are folded into it. Otherwise
it is one for the number and one for each sign, and all that follows has another address. Apart from
that, a program has the same code whether signs are folded or not: the two codes are *woven*
together (`Woven`).

* How many instructions of one code an instruction of the other stands for can be told from the tree
  (`Expr.widths`, `Stmt.widths`).
* A function that says which addresses correspond follows these widths (`Follows`), and along such a
  function the codes are woven (`Expr.woven`, `Stmt.woven`).
* There is such a function for each definition and for each program (`Foldable.exists_weaves`,
  `Program.exists_weaves`).

The codes hold functions, so two values that correspond differ in the codes in them. They are what
one value over definitions becomes in two ways (`Value.folded`, `Value.plain`).
-/

namespace Linewise

/-! ## Functions with two codes -/

/-- The definition with the signs of numbers folded into them. -/
def Definition.fold (d : Definition) : Definition := { d with body := Stmt.foldBody d.body }

/-- A definition in which every sign can be folded. -/
structure Foldable extends Definition where
  hasOpposites : ∀ e ∈ Stmt.exprsOf body, e.HasOpposites

namespace Foldable

instance : FunctionHandle Foldable where
  name d := d.name
  ident d := d.ident

/-- The code of the definition with signs folded. -/
def folded (d : Foldable) : Code := d.toDefinition.fold.code

/-- The code of the definition as it stands. -/
def plain (d : Foldable) : Code := d.toDefinition.code

theorem keepsHandles_folded : KeepsHandles folded := ⟨fun _ => rfl, fun _ => rfl⟩

theorem keepsHandles_plain : KeepsHandles plain := ⟨fun _ => rfl, fun _ => rfl⟩

end Foldable

/-- The value with the codes of definitions with signs folded. -/
abbrev Value.folded (v : Value Foldable) : Value Code := v.map Foldable.folded

/-- The value with the codes of definitions as they stand. -/
abbrev Value.plain (v : Value Foldable) : Value Code := v.map Foldable.plain

/-! ## Numbers with signs -/

/-- A value becomes another one under some minus signs, and none of them faults. -/
inductive Signed : Nat → Value Foldable → Value Foldable → Prop
  | zero (v : Value Foldable) : Signed 0 v v
  | succ {signs : Nat} {u v v' : Value Foldable} (h : Signed signs u v)
      (hneg : Value.applyUnary .neg v = .ok v') : Signed (signs + 1) u v'

namespace Expr

variable {e : Expr Int64} {v : Value Foldable}

/-- The number that an expression is. -/
def number? : Expr Int64 → Option (Value Foldable)
  | int n => some (.int n)
  | float x => some (.float x)
  | _ => Option.none

theorem negate_of_number?_none (h : e.number? = Option.none) : e.negate = .unary .neg e := by
  cases e <;> first | rfl | cases h

theorem number?_negate (h : e.number? = some v) : ∃ w, e.negate.number? = some w := by
  cases e <;> first | exact ⟨_, rfl⟩ | cases h

theorem emit_of_number? (h : e.number? = some v) (start : Nat) :
    e.emit start = [.const v.folded] := by
  cases e <;> cases h <;> rfl

theorem codeSize_of_number? (h : e.number? = some v) : e.codeSize = 1 := by
  cases e <;> cases h <;> rfl

/-- A sign in front of a number is applied to it. -/
theorem applyUnary_of_number? (hopp : e.HasOpposites) (h : e.negate.number? = some v) :
    ∃ u, e.number? = some u ∧ Value.applyUnary .neg u = .ok v := by
  cases e with
  | int n =>
    cases h
    have hneg : (-n).toInt = -n.toInt := HasOpposites.toInt_neg_of_ne (hopp n List.mem_cons_self)
    refine ⟨_, rfl, ?_⟩
    rw [Value.applyUnary, Value.exact_eq_ofWord?, Word.ofInt?_eq_some_iff.2 hneg]
    rfl
  | float x =>
    cases h
    exact ⟨_, rfl, rfl⟩
  | _ => cases h

/-- What is folded to a number is a number with signs, and stands for instructions accordingly. -/
theorem exists_signed : ∀ {e : Expr Int64} {v : Value Foldable}, e.HasOpposites →
    e.fold.number? = some v → ∃ signs u, Signed signs u v ∧
      ∀ start, e.emit start = .const u.plain :: List.replicate signs (.unary .neg)
  | .int _, _, _, h | .float _, _, _, h => by
    cases h
    exact ⟨0, _, .zero _, fun _ => rfl⟩
  | .unary .neg operand, v, hopp, h => by
    have hoperand : operand.HasOpposites := hopp.of_mem (by simp [nodes])
    obtain ⟨w, hw, hneg⟩ := applyUnary_of_number? hoperand.fold h
    obtain ⟨signs, u, hsigned, hemit⟩ := exists_signed hoperand hw
    refine ⟨signs + 1, u, hsigned.succ hneg, fun start => ?_⟩
    rw [emit, hemit, List.replicate_succ', List.cons_append]

end Expr

/-! ## Correspondence of addresses -/

/-- From the address `start` on, each address is as far from the next one as `widths` says, in the
    code whose addresses `shift` gives. -/
def Follows (shift : Nat → Nat) : (start : Nat) → (widths : List Nat) → Prop
  | _, [] => True
  | start, width :: rest => shift (start + 1) = shift start + width ∧ Follows shift (start + 1) rest

section Follows

variable {shift : Nat → Nat} {start : Nat}

@[simp] theorem follows_nil : Follows shift start [] := trivial

@[simp]
theorem follows_cons {width : Nat} {rest : List Nat} : Follows shift start (width :: rest) ↔
    shift (start + 1) = shift start + width ∧ Follows shift (start + 1) rest := Iff.rfl

/-- Widths behind others are those of the addresses behind. -/
@[simp]
theorem follows_append {widths rest : List Nat} : Follows shift start (widths ++ rest) ↔
    Follows shift start widths ∧ Follows shift (start + widths.length) rest := by
  induction widths generalizing start with
  | nil => simp
  | cons width widths ih =>
    rw [List.cons_append, follows_cons, ih, follows_cons, and_assoc, List.length_cons,
      Nat.add_assoc start, Nat.add_comm 1]

end Follows

/-- Where the instructions begin that an instruction stands for, by how many of them each one stands
    for. -/
def addressBy (widths : List Nat) (n : Nat) : Nat := (widths.take n).sum

@[simp]
theorem addressBy_zero (widths : List Nat) : addressBy widths 0 = 0 := by
  rw [addressBy, List.take_zero, List.sum_nil]

theorem addressBy_of_le {widths : List Nat} {n : Nat} (h : widths.length ≤ n) :
    addressBy widths n = addressBy widths widths.length := by
  rw [addressBy, addressBy, List.take_of_length_le h, List.take_length]

/-- Addresses by widths follow them. -/
theorem follows_addressBy (before widths : List Nat) :
    Follows (addressBy (before ++ widths)) before.length widths := by
  induction widths generalizing before with
  | nil => trivial
  | cons width rest ih =>
    have hrest := ih (before ++ [width])
    rw [List.append_assoc, List.length_append] at hrest
    refine ⟨?_, hrest⟩
    simp [addressBy, List.take_append, List.take_of_length_le]

mutual

/-- How many instructions of an expression each one stands for that it has when signs are folded. -/
def Expr.widths : Expr Int64 → List Nat
  | .int _ | .float _ | .str _ | .bool _ | .none | .ident _ => [1]
  | .list items => Expr.widthsOf items ++ [1]
  | .subscript object index => object.widths ++ index.widths ++ [1]
  | .call callee args => callee.widths ++ Expr.widthsOf args ++ [1]
  | .unary .neg operand =>
    if operand.fold.number?.isSome then [operand.codeSize + 1] else operand.widths ++ [1]
  | .unary .not operand => operand.widths ++ [1]
  | .binary _ left right => left.widths ++ right.widths ++ [1]
  | .logic _ left right => left.widths ++ 1 :: right.widths

/-- How many instructions of some expressions each one stands for. -/
def Expr.widthsOf : List (Expr Int64) → List Nat
  | [] => []
  | item :: rest => item.widths ++ Expr.widthsOf rest

end

mutual

/-- How many instructions of a statement each one stands for. -/
def Stmt.widths (loop : Option LoopKind) : Stmt Int64 → List Nat
  | .expr _ value | .assign _ _ value => value.widths ++ [1]
  | .assignItem _ _ index value => index.widths ++ value.widths ++ [1]
  | .branch line test body otherwise =>
    test.widths ++ 1 :: Stmt.widthsOf loop line body ++ 1 :: otherwise.widths loop
  | .whileLoop line test body =>
    1 :: 1 :: test.widths ++ 1 :: Stmt.widthsOf (some .testing) line body ++ [1]
  | .forLoop line _ iterable body =>
    iterable.widths ++ [1, 1, 1, 1, 1] ++ Stmt.widthsOf (some .iterating) line body ++ [1]
  | .define .. => [1, 1]
  | .leave _ value => (returned value).widths ++ [1]
  | .breakLoop _ => List.replicate ((loop.map LoopKind.breakSize).getD 0) 1
  | .continueLoop _ => if loop.isSome then [1] else []
  | .pass _ => []

/-- How many instructions of the arms of a conditional each one stands for. -/
def Otherwise.widths (loop : Option LoopKind) : Otherwise Int64 → List Nat
  | .nothing => []
  | .body body => Stmt.widthsOf loop 0 body
  | .arm line test body otherwise =>
    1 :: test.widths ++ 1 :: Stmt.widthsOf loop line body ++ 1 :: otherwise.widths loop

/-- How many instructions of a body each one stands for, after code of the line `before`. -/
def Stmt.widthsOf (loop : Option LoopKind) (before : Line) : List (Stmt Int64) → List Nat
  | [] => []
  | stmt :: rest => List.replicate (lineSize before stmt.line) 1 ++ stmt.widths loop ++
      Stmt.widthsOf loop stmt.line rest

end

mutual

/-- There is one width for each instruction of the folded expression. -/
@[simp]
theorem Expr.length_widths : ∀ e : Expr Int64, e.widths.length = e.fold.codeSize
  | .int _ | .float _ | .str _ | .bool _ | .none | .ident _ => rfl
  | .list items => by simp [widths, fold, codeSize, Expr.length_widthsOf items]
  | .subscript object index => by
    simp [widths, fold, codeSize, Expr.length_widths object, Expr.length_widths index,
      Nat.add_assoc]
  | .call callee args => by
    simp [widths, fold, codeSize, Expr.length_widths callee, Expr.length_widthsOf args,
      Nat.add_assoc]
  | .unary .neg operand => by
    rw [widths, fold]
    -- A sign in front of a number goes into it, and any other one keeps its instruction.
    cases hnumber : operand.fold.number? with
    | some v =>
      obtain ⟨w, hw⟩ := number?_negate hnumber
      rw [codeSize_of_number? hw]
      rfl
    | none =>
      rw [negate_of_number?_none hnumber]
      simp [codeSize, Expr.length_widths operand]
  | .unary .not operand => by simp [widths, fold, codeSize, Expr.length_widths operand]
  | .binary _ left right => by
    simp [widths, fold, codeSize, Expr.length_widths left, Expr.length_widths right, Nat.add_assoc]
  | .logic _ left right => by
    simp [widths, fold, codeSize, Expr.length_widths left, Expr.length_widths right]
    omega

@[simp]
theorem Expr.length_widthsOf : ∀ items : List (Expr Int64),
    (Expr.widthsOf items).length = Expr.codeSizeOf (Expr.foldItems items)
  | [] => rfl
  | item :: rest => by
    simp [widthsOf, foldItems, codeSizeOf, Expr.length_widths item, Expr.length_widthsOf rest]

end

theorem Expr.length_foldItems (items : List (Expr Int64)) :
    (Expr.foldItems items).length = items.length := by
  induction items with
  | nil => rfl
  | cons item rest ih => rw [foldItems, List.length_cons, ih, List.length_cons]

theorem Stmt.line_fold (stmt : Stmt Int64) : stmt.fold.line = stmt.line := by
  cases stmt <;> rfl

mutual

/-- There is one width for each instruction of the folded statement. -/
@[simp]
theorem Stmt.length_widths (loop : Option LoopKind) : ∀ stmt : Stmt Int64,
    (stmt.widths loop).length = stmt.fold.codeSize loop
  | .expr .. | .assign .. | .assignItem .. => by
    simp [Stmt.widths, Stmt.fold, Stmt.codeSize, Nat.add_assoc]
  | .branch line _ body otherwise => by
    simp [Stmt.widths, Stmt.fold, Stmt.codeSize, Stmt.length_widthsOf loop line body,
      Otherwise.length_widths loop otherwise]
    omega
  | .whileLoop line _ body => by
    simp [Stmt.widths, Stmt.fold, Stmt.codeSize, Stmt.length_widthsOf _ line body]
    omega
  | .forLoop line _ _ body => by
    simp [Stmt.widths, Stmt.fold, Stmt.codeSize, Stmt.length_widthsOf _ line body]
    omega
  | .define .. | .pass _ => rfl
  | .leave _ value => by cases value <;> simp [Stmt.widths, Stmt.fold, Stmt.codeSize, returned]; rfl
  | .breakLoop _ => by simp [Stmt.widths, Stmt.fold, Stmt.codeSize]
  | .continueLoop _ => by cases loop <;> rfl

/-- There is one width for each instruction of what a folded conditional goes on with. -/
@[simp]
theorem Otherwise.length_widths (loop : Option LoopKind) : ∀ otherwise : Otherwise Int64,
    (otherwise.widths loop).length = otherwise.fold.codeSize loop
  | .nothing => rfl
  | .body body => Stmt.length_widthsOf loop 0 body
  | .arm line _ body otherwise => by
    simp [Otherwise.widths, Otherwise.fold, Otherwise.codeSize, Stmt.length_widthsOf loop line body,
      Otherwise.length_widths loop otherwise]
    omega

/-- There is one width for each instruction of the folded statements. -/
@[simp]
theorem Stmt.length_widthsOf (loop : Option LoopKind) (before : Line) :
    ∀ body : List (Stmt Int64),
      (Stmt.widthsOf loop before body).length = Stmt.codeSizeOf loop before (Stmt.foldBody body)
  | [] => rfl
  | stmt :: rest => by
    simp [Stmt.widthsOf, Stmt.foldBody, Stmt.codeSizeOf, Stmt.line_fold,
      Stmt.length_widths loop stmt, Stmt.length_widthsOf loop stmt.line rest, Nat.add_assoc]

end

/-! ## Weaving -/

namespace Instr

/-- The instruction holds a value or a code. -/
def isBearing : Instr → Bool
  | .const _ | .makeFunction _ => true
  | _ => false

/-- The instruction with its target where `shift` puts it. -/
def move (shift : Nat → Nat) : Instr → Instr
  | .jump target => .jump (shift target)
  | .jumpIfFalse target => .jumpIfFalse (shift target)
  | .jumpIfFalseOrPop target => .jumpIfFalseOrPop (shift target)
  | .jumpIfTrueOrPop target => .jumpIfTrueOrPop (shift target)
  | .iterNext target => .iterNext (shift target)
  | instr => instr

end Instr

/-- Some instructions with signs folded, from the address `start` on, and those that they stand for,
    from the address `shift start` on. -/
inductive Woven (shift : Nat → Nat) : (start : Nat) → List Instr → List Instr → Prop
  | nil {start : Nat} : Woven shift start [] []
  | move {start : Nat} {rest rest' : List Instr} (instr : Instr) (hinstr : instr.isBearing = false)
      (hshift : shift (start + 1) = shift start + 1) (h : Woven shift (start + 1) rest rest') :
      Woven shift start (instr :: rest) (instr.move shift :: rest')
  | makeFunction {start : Nat} {rest rest' : List Instr} (d : Foldable)
      (hshift : shift (start + 1) = shift start + 1) (h : Woven shift (start + 1) rest rest') :
      Woven shift start (.makeFunction d.folded :: rest) (.makeFunction d.plain :: rest')
  /-- A constant stands for another one and some signs. -/
  | number {start signs : Nat} {u v : Value Foldable} {rest rest' : List Instr}
      (hsigned : Signed signs u v) (hshift : shift (start + 1) = shift start + (signs + 1))
      (h : Woven shift (start + 1) rest rest') :
      Woven shift start (.const v.folded :: rest)
        (.const u.plain :: (List.replicate signs (.unary .neg) ++ rest'))

namespace Woven

variable {shift : Nat → Nat} {start mid : Nat} {instrs instrs' rest rest' : List Instr}

theorem const (v : Value Foldable) (hshift : shift (start + 1) = shift start + 1)
    (h : Woven shift (start + 1) rest rest') :
    Woven shift start (.const v.folded :: rest) (.const v.plain :: rest') :=
  .number (.zero v) hshift h

/-- Where some instructions end, those end that they stand for. -/
theorem shift_eq (h : Woven shift start instrs instrs') :
    shift (start + instrs.length) = shift start + instrs'.length := by
  induction h with
  | nil => rfl
  | move _ _ hshift _ ih | makeFunction _ hshift _ ih =>
    rw [List.length_cons, List.length_cons, Nat.add_comm _ 1, ← Nat.add_assoc, ih, hshift]
    omega
  | number _ hshift _ ih =>
    rw [List.length_cons, List.length_cons, List.length_append, List.length_replicate,
      Nat.add_comm _ 1, ← Nat.add_assoc, ih, hshift]
    omega

/-- Where an expression ends, it ends that keeps its signs. -/
theorem shift_codeSize {e : Expr Int64}
    (h : Woven shift start (e.fold.emit start) (e.emit (shift start))) :
    shift (start + e.fold.codeSize) = shift start + e.codeSize := by
  have hshift := h.shift_eq
  rwa [Expr.length_emit, Expr.length_emit] at hshift

/-- Codes that weave can be put one after the other. -/
theorem append (h : Woven shift start instrs instrs') (hmid : mid = start + instrs.length)
    (hrest : Woven shift mid rest rest') :
    Woven shift start (instrs ++ rest) (instrs' ++ rest') := by
  subst hmid
  induction h with
  | nil => exact hrest
  | move instr hinstr hshift _ ih =>
    refine .move _ hinstr hshift (ih ?_)
    rwa [List.length_cons, Nat.add_comm _ 1, ← Nat.add_assoc] at hrest
  | makeFunction d hshift _ ih =>
    refine .makeFunction d hshift (ih ?_)
    rwa [List.length_cons, Nat.add_comm _ 1, ← Nat.add_assoc] at hrest
  | number hsigned hshift _ ih =>
    rw [List.cons_append, List.cons_append, List.append_assoc]
    refine .number hsigned hshift (ih ?_)
    rwa [List.length_cons, Nat.add_comm _ 1, ← Nat.add_assoc] at hrest

/-- One more instruction that holds nothing. -/
theorem concat {instr : Instr} (h : Woven shift start instrs instrs')
    (hmid : mid = start + instrs.length) (hshift : shift (mid + 1) = shift mid + 1)
    (hinstr : instr.isBearing = false) :
    Woven shift start (instrs ++ [instr]) (instrs' ++ [instr.move shift]) :=
  h.append hmid (.move _ hinstr hshift .nil)

/-- All but the first of some instructions stand for those that are left. -/
theorem drop (h : Woven shift start instrs instrs') : ∀ {k : Nat}, k ≤ instrs.length →
    ∃ k', shift (start + k) = shift start + k' ∧
      Woven shift (start + k) (instrs.drop k) (instrs'.drop k') := by
  induction h with
  | nil =>
    intro k hk
    cases Nat.le_zero.1 hk
    exact ⟨0, rfl, .nil⟩
  | @move start rest rest' instr hinstr hshift h ih =>
    rintro (_ | k) hk
    · exact ⟨0, rfl, .move _ hinstr hshift h⟩
    · obtain ⟨k', heq, hdrop⟩ := ih (Nat.le_of_succ_le_succ hk)
      rw [Nat.add_assoc, Nat.add_comm 1] at heq hdrop
      exact ⟨k' + 1, by omega, hdrop⟩
  | @makeFunction start rest rest' d hshift h ih =>
    rintro (_ | k) hk
    · exact ⟨0, rfl, .makeFunction d hshift h⟩
    · obtain ⟨k', heq, hdrop⟩ := ih (Nat.le_of_succ_le_succ hk)
      rw [Nat.add_assoc, Nat.add_comm 1] at heq hdrop
      exact ⟨k' + 1, by omega, hdrop⟩
  | @number start signs u v rest rest' hsigned hshift h ih =>
    rintro (_ | k) hk
    · exact ⟨0, rfl, .number hsigned hshift h⟩
    · obtain ⟨k', heq, hdrop⟩ := ih (Nat.le_of_succ_le_succ hk)
      rw [Nat.add_assoc, Nat.add_comm 1] at heq hdrop
      refine ⟨signs + k' + 1, by omega, ?_⟩
      -- With its constant, all signs of a number are dropped.
      have hskip : (List.replicate signs (Instr.unary .neg) ++ rest').drop (signs + k') =
          rest'.drop k' := by
        rw [List.drop_append, List.length_replicate, Nat.add_sub_cancel_left,
          List.drop_of_length_le (by rw [List.length_replicate]; omega), List.nil_append]
      rwa [List.drop_succ_cons, List.drop_succ_cons, hskip]

end Woven

mutual

/-- The codes of an expression are woven. -/
theorem Expr.woven {shift : Nat → Nat} : ∀ {e : Expr Int64} {start : Nat}, e.HasOpposites →
    Follows shift start e.widths → Woven shift start (e.fold.emit start) (e.emit (shift start))
  | .int n, _, _, hfollows => .const (.int n) hfollows.1 .nil
  | .float x, _, _, hfollows => .const (.float x) hfollows.1 .nil
  | .str s, _, _, hfollows => .const (.str s) hfollows.1 .nil
  | .bool b, _, _, hfollows => .const (.bool b) hfollows.1 .nil
  | .none, _, _, hfollows => .const .none hfollows.1 .nil
  | .ident _, _, _, hfollows => .move _ rfl hfollows.1 .nil
  | .list items, start, hopp, hfollows => by
    simp only [Expr.widths, follows_append, Expr.length_widthsOf, follows_cons] at hfollows
    obtain ⟨hitems, hlast, -⟩ := hfollows
    have hitems := Expr.wovenAll hopp.of_mem_items hitems
    rw [Expr.fold, Expr.emit, Expr.emit, Expr.length_foldItems]
    exact hitems.concat (by simp) hlast rfl
  | .unary .neg operand, start, hopp, hfollows => by
    rw [Expr.widths] at hfollows
    rw [Expr.fold]
    cases hnumber : operand.fold.number? with
    | some v =>
      obtain ⟨w, hw⟩ := Expr.number?_negate hnumber
      -- The folded number is one constant; it stands for another one and as many signs as were
      -- folded.
      obtain ⟨signs, u, hsigned, hemit⟩ := Expr.exists_signed (e := .unary .neg operand) hopp hw
      have hsize : operand.codeSize + 1 = signs + 1 := by
        have hlength := congrArg List.length (hemit 0)
        simpa [Expr.codeSize] using hlength
      rw [hnumber, Option.isSome_some, if_pos rfl, hsize] at hfollows
      rw [Expr.emit_of_number? hw, hemit, ← List.append_nil (List.replicate _ _)]
      exact .number hsigned hfollows.1 .nil
    | none =>
      rw [hnumber, Option.isSome_none, if_neg Bool.false_ne_true, follows_append,
        Expr.length_widths] at hfollows
      have hoperand := Expr.woven (hopp.of_mem (by simp [Expr.nodes])) hfollows.1
      rw [Expr.negate_of_number?_none hnumber, Expr.emit, Expr.emit]
      exact hoperand.concat (by simp) hfollows.2.1 rfl
  | .unary .not operand, start, hopp, hfollows => by
    rw [Expr.widths, follows_append, Expr.length_widths] at hfollows
    have hoperand := Expr.woven (hopp.of_mem (by simp [Expr.nodes])) hfollows.1
    rw [Expr.fold, Expr.emit, Expr.emit]
    exact hoperand.concat (by simp) hfollows.2.1 rfl
  | .subscript left right, start, hopp, hfollows | .binary _ left right, start, hopp, hfollows => by
    simp only [Expr.widths, follows_append, Expr.length_widths, List.length_append,
      follows_cons] at hfollows
    obtain ⟨⟨hleft, hright⟩, hlast, -⟩ := hfollows
    have hleft := Expr.woven (hopp.of_mem (by simp [Expr.nodes])) hleft
    have hright := Expr.woven (hopp.of_mem (by simp [Expr.nodes])) hright
    rw [hleft.shift_codeSize] at hright
    rw [Expr.fold, Expr.emit, Expr.emit]
    exact (hleft.append (by simp) hright).concat (by simp) hlast rfl
  | .call callee args, start, hopp, hfollows => by
    simp only [Expr.widths, follows_append, Expr.length_widths, Expr.length_widthsOf,
      List.length_append, follows_cons] at hfollows
    obtain ⟨⟨hcallee, hargs⟩, hlast, -⟩ := hfollows
    have hcallee := Expr.woven (hopp.of_mem (by simp [Expr.nodes])) hcallee
    have hargs := Expr.wovenAll hopp.of_mem_args hargs
    rw [hcallee.shift_codeSize] at hargs
    rw [Expr.fold, Expr.emit, Expr.emit, Expr.length_foldItems]
    exact (hcallee.append (by simp) hargs).concat (by simp) hlast rfl
  | .logic op left right, start, hopp, hfollows => by
    simp only [Expr.widths, follows_append, Expr.length_widths, follows_cons] at hfollows
    obtain ⟨hleft, hjump, hright⟩ := hfollows
    have hleft := Expr.woven (hopp.of_mem (by simp [Expr.nodes])) hleft
    have hright := Expr.woven (hopp.of_mem (by simp [Expr.nodes])) hright
    have hend := hright.shift_codeSize
    -- The jump over the right operand leads to the place that the shift gives.
    rw [hjump, hleft.shift_codeSize] at hright hend
    have hrest : Woven shift (start + left.fold.codeSize)
        (op.jump (start + left.fold.codeSize + 1 + right.fold.codeSize) ::
          right.fold.emit (start + left.fold.codeSize + 1))
        (op.jump (shift (start + left.fold.codeSize + 1 + right.fold.codeSize)) ::
          right.emit (shift start + left.codeSize + 1)) := by
      cases op <;> exact .move _ rfl hjump hright
    rw [Expr.fold, Expr.emit, Expr.emit, ← hend]
    exact hleft.append (by simp) hrest

/-- Expressions weave with their folded forms, if no sign in them is in front of a number that has
    no opposite. -/
theorem Expr.wovenAll {shift : Nat → Nat} : ∀ {items : List (Expr Int64)} {start : Nat},
    (∀ item ∈ items, item.HasOpposites) → Follows shift start (Expr.widthsOf items) →
      Woven shift start (Expr.emitAll start (Expr.foldItems items))
        (Expr.emitAll (shift start) items)
  | [], _, _, _ => .nil
  | item :: rest, start, hopp, hfollows => by
    rw [Expr.widthsOf, follows_append, Expr.length_widths] at hfollows
    obtain ⟨hitem, hrest⟩ := List.forall_mem_cons.1 hopp
    have hitem := Expr.woven hitem hfollows.1
    have hrest := Expr.wovenAll hrest hfollows.2
    rw [hitem.shift_codeSize] at hrest
    exact hitem.append (by simp) hrest

end

/-! ## Weaving statements -/

/-- The loop with its addresses where `shift` puts them. -/
def Loop.move (shift : Nat → Nat) (loop : Loop) : Loop :=
  ⟨loop.kind, shift loop.head, shift loop.exit⟩

@[simp]
theorem Loop.map_kind_move (shift : Nat → Nat) (loop : Option Loop) :
    (loop.map (Loop.move shift)).map Loop.kind = loop.map Loop.kind := by
  cases loop <;> rfl

section Statements

variable {shift : Nat → Nat} {loop : Option Loop} {start finish : Nat} {before line : Line}
  {test : Expr Int64} {body : List (Stmt Int64)}

/-- A `line` instruction stands for itself. -/
theorem woven_emitLine (hfollows : Follows shift start (List.replicate (lineSize before line) 1)) :
    Woven shift start (emitLine before line) (emitLine before line) := by
  rw [lineSize] at hfollows
  rw [emitLine]
  split
  · exact .nil
  next hne =>
    rw [if_neg hne] at hfollows
    exact .move _ rfl hfollows.1 .nil

/-- An arm of a conditional is woven if its parts are. -/
theorem woven_arm (loop : Option Loop) (finish : Nat) (otherwise : Otherwise Int64)
    (htest : test.HasOpposites)
    (hbody : ∀ {inner}, Follows shift inner (Stmt.widthsOf (loop.map Loop.kind) line body) →
      Woven shift inner (Stmt.emitAll loop line inner (Stmt.foldBody body))
        (Stmt.emitAll (loop.map (Loop.move shift)) line (shift inner) body))
    (hotherwise : ∀ {next}, Follows shift next (otherwise.widths (loop.map Loop.kind)) →
      Woven shift next (otherwise.fold.emit loop finish next)
        (otherwise.emit (loop.map (Loop.move shift)) (shift finish) (shift next)))
    (hfollows : Follows shift start (test.widths ++
      1 :: Stmt.widthsOf (loop.map Loop.kind) line body ++
      1 :: otherwise.widths (loop.map Loop.kind))) :
    let inner := start + test.fold.codeSize + 1
    let next := inner + Stmt.codeSizeOf (loop.map Loop.kind) line (Stmt.foldBody body) + 1
    let inner' := shift start + test.codeSize + 1
    let next' := inner' + Stmt.codeSizeOf (loop.map Loop.kind) line body + 1
    shift (next + otherwise.fold.codeSize (loop.map Loop.kind)) =
        next' + otherwise.codeSize (loop.map Loop.kind) ∧
      Woven shift start
        (test.fold.emit start ++ .jumpIfFalse next ::
          Stmt.emitAll loop line inner (Stmt.foldBody body) ++
          .jump finish :: otherwise.fold.emit loop finish next)
        (test.emit (shift start) ++ .jumpIfFalse next' ::
          Stmt.emitAll (loop.map (Loop.move shift)) line inner' body ++
          .jump (shift finish) ::
            otherwise.emit (loop.map (Loop.move shift)) (shift finish) next') := by
  intro inner next inner' next'
  simp only [follows_append, follows_cons, List.length_append, List.length_cons, Expr.length_widths,
    Stmt.length_widthsOf] at hfollows
  obtain ⟨⟨htestFollows, hjump, hbodyFollows⟩, hlast, hotherwiseFollows⟩ := hfollows
  have hmid : start + (test.fold.codeSize +
      (Stmt.codeSizeOf (loop.map Loop.kind) line (Stmt.foldBody body) + 1)) =
      inner + Stmt.codeSizeOf (loop.map Loop.kind) line (Stmt.foldBody body) := by
    omega
  rw [hmid] at hlast hotherwiseFollows
  have htestWoven := Expr.woven htest htestFollows
  -- Each part begins where the shift says, as the part before it ends there.
  have hinner : shift inner = inner' := by
    rw [show shift inner = _ from hjump, htestWoven.shift_codeSize]
  have hbodyWoven := hbody hbodyFollows
  have hnext : shift next = next' := by
    have hshift := hbodyWoven.shift_eq
    rw [Stmt.length_emitAll, Stmt.length_emitAll, Loop.map_kind_move, hinner] at hshift
    rw [show shift next = _ from hlast, hshift]
  have hotherwiseWoven := hotherwise hotherwiseFollows
  have hfinish := hotherwiseWoven.shift_eq
  rw [show inner + _ + 1 = next from rfl, Otherwise.length_emit, Otherwise.length_emit,
    Loop.map_kind_move, hnext] at hfinish
  refine ⟨hfinish, ?_⟩
  rw [← hnext, ← hinner]
  exact (htestWoven.append (by simp) (.move _ rfl hjump hbodyWoven)).append
    (by simpa using hmid.symm) (.move _ rfl hlast hotherwiseWoven)

end Statements

mutual

/-- The codes of a statement are woven. -/
theorem Stmt.woven {shift : Nat → Nat} {loop : Option Loop} : ∀ {stmt : Stmt Int64} {start : Nat},
    (∀ e ∈ stmt.exprs, e.HasOpposites) → Follows shift start (stmt.widths (loop.map Loop.kind)) →
      Woven shift start (stmt.fold.emit loop start)
        (stmt.emit (loop.map (Loop.move shift)) (shift start))
  | .expr _ value, start, hopp, hfollows | .assign _ _ value, start, hopp, hfollows => by
    rw [Stmt.widths, follows_append, Expr.length_widths] at hfollows
    have hvalue := Expr.woven (hopp value (by simp)) hfollows.1
    rw [Stmt.fold, Stmt.emit, Stmt.emit]
    exact hvalue.concat (by simp) hfollows.2.1 rfl
  | .assignItem _ _ index value, start, hopp, hfollows => by
    simp only [Stmt.widths, follows_append, Expr.length_widths, List.length_append,
      follows_cons] at hfollows
    obtain ⟨⟨hindex, hvalue⟩, hlast, -⟩ := hfollows
    have hindex := Expr.woven (hopp index (by simp)) hindex
    have hvalue := Expr.woven (hopp value (by simp)) hvalue
    rw [hindex.shift_codeSize] at hvalue
    rw [Stmt.fold, Stmt.emit, Stmt.emit]
    exact (hindex.append (by simp) hvalue).concat (by simp) hlast rfl
  | .branch line test body otherwise, start, hopp, hfollows => by
    simp only [Stmt.exprs_branch, List.forall_mem_cons, List.forall_mem_append] at hopp
    obtain ⟨htest, hbody, hotherwise⟩ := hopp
    obtain ⟨hfinish, harm⟩ := woven_arm loop _ otherwise htest (Stmt.wovenAll hbody)
      (Otherwise.woven hotherwise) hfollows
    rw [hfinish] at harm
    rw [Stmt.fold, Stmt.emit, Stmt.emit, Loop.map_kind_move]
    exact harm
  | .whileLoop line test body, start, hopp, hfollows => by
    rw [Stmt.exprs_whileLoop, List.forall_mem_cons] at hopp
    simp only [Stmt.widths, List.cons_append] at hfollows
    obtain ⟨hskip, hline, hfollows⟩ := hfollows
    -- Behind its first two instructions, the loop is laid out as an arm with no other one after it.
    let exit := start + 1 + 1 + test.fold.codeSize + 1 +
      Stmt.codeSizeOf (some .testing) line (Stmt.foldBody body) + 1
    obtain ⟨hexit, harm⟩ := woven_arm (some ⟨.testing, start + 1, exit⟩) (start + 1) .nothing hopp.1
      (Stmt.wovenAll hopp.2) (fun _ => .nil) hfollows
    rw [hline, hskip] at harm hexit
    have hheader := Woven.move (.jump (start + 1 + 1)) rfl hskip (.move (.line line) rfl hline harm)
    simp only [Stmt.fold, Stmt.emit]
    simpa [Instr.move, Loop.move, Otherwise.fold, Otherwise.emit, Otherwise.codeSize, hline, hskip,
      show shift exit = _ from hexit] using hheader
  | .forLoop line var iterable body, start, hopp, hfollows => by
    rw [Stmt.exprs_forLoop, List.forall_mem_cons] at hopp
    simp only [Stmt.widths, List.append_assoc, List.cons_append, List.nil_append, follows_append,
      follows_cons, Expr.length_widths] at hfollows
    obtain ⟨hiterable, hopen, hskip, hline, hnext, hstore, hbody, hback, -⟩ := hfollows
    rw [Stmt.length_widthsOf] at hback
    have hiterable := Expr.woven hopp.1 hiterable
    let head := start + iterable.fold.codeSize + 2
    let exit := head + 3 + Stmt.codeSizeOf (some .iterating) line (Stmt.foldBody body) + 1
    have hbody : Woven shift (head + 3)
        (Stmt.emitAll (some ⟨.iterating, head, exit⟩) line (head + 3) (Stmt.foldBody body))
        (Stmt.emitAll (some ⟨.iterating, shift head, shift exit⟩) line (shift (head + 3)) body) :=
      Stmt.wovenAll hopp.2 hbody
    have hend := hbody.shift_eq
    rw [Stmt.length_emitAll, Stmt.length_emitAll] at hend
    -- What the loop jumps to stands where `shift` puts it.
    have hhead : shift head = shift start + iterable.codeSize + 2 := by
      rw [show shift head = _ from hskip, hopen, hiterable.shift_codeSize]
    have hinner : shift (head + 3) = shift head + 3 := by
      rw [show shift (head + 3) = _ from hstore, hnext, hline]
    have hexit : shift exit = shift head + 3 + Stmt.codeSizeOf (some .iterating) line body + 1 := by
      rw [show shift exit = _ from hback, ← hinner]
      exact congrArg (· + 1) hend
    have hlooping := @Woven.move shift head _ _ (.line line) rfl hline <|
      .move (.iterNext exit) rfl hnext <| .move (.store var) rfl hstore <|
      hbody.append (by rw [Stmt.length_emitAll]; rfl) <| .move (.jump head) rfl hback .nil
    have hwoven := hiterable.append (by simp) <| .move .iterStart rfl hopen <|
      .move (.jump (head + 1)) rfl hskip hlooping
    simp only [Instr.move, show shift (head + 1) = _ from hline,
      show shift (start + _ + 1 + 1) = _ from hhead, hinner, hexit, hhead] at hwoven
    simpa [Stmt.fold, Stmt.emit] using hwoven
  | .define line name params body ident, start, hopp, hfollows => by
    rw [Stmt.exprs_define] at hopp
    exact .makeFunction ⟨⟨line, name, params, body, ident⟩, hopp⟩ hfollows.1
      (.move _ rfl hfollows.2.1 .nil)
  | .leave _ none, start, hopp, hfollows => .const .none hfollows.1 (.move _ rfl hfollows.2.1 .nil)
  | .leave _ (some value), start, hopp, hfollows => by
    rw [Stmt.widths, returned, Option.getD_some, follows_append, Expr.length_widths] at hfollows
    have hvalue := Expr.woven (hopp value (by simp)) hfollows.1
    rw [Stmt.fold, Option.map_some, Stmt.emit, Stmt.emit]
    exact hvalue.concat (by simp) hfollows.2.1 rfl
  | .breakLoop _, start, hopp, hfollows => by
    cases loop with
    | none => exact .nil
    | some loop =>
      obtain ⟨_ | _, head, exit⟩ := loop
      · exact .move _ rfl hfollows.1 .nil
      · exact .move _ rfl hfollows.1 (.move _ rfl hfollows.2.1 .nil)
  | .continueLoop _, start, hopp, hfollows => by
    cases loop with
    | none => exact .nil
    | some loop => exact .move _ rfl hfollows.1 .nil
  | .pass _, _, _, _ => .nil

/-- What a conditional goes on with weaves with its folded form, if no sign in it is in front of a
    number that has no opposite. -/
theorem Otherwise.woven {shift : Nat → Nat} {loop : Option Loop} {finish : Nat} :
    ∀ {otherwise : Otherwise Int64} {start : Nat}, (∀ e ∈ otherwise.exprs, e.HasOpposites) →
      Follows shift start (otherwise.widths (loop.map Loop.kind)) →
      Woven shift start (otherwise.fold.emit loop finish start)
        (otherwise.emit (loop.map (Loop.move shift)) (shift finish) (shift start))
  | .nothing, _, _, _ => .nil
  | .body body, start, hopp, hfollows => by
    rw [Otherwise.exprs_body] at hopp
    exact Stmt.wovenAll hopp hfollows
  | .arm line test body otherwise, start, hopp, hfollows => by
    simp only [Otherwise.exprs_arm, List.forall_mem_cons, List.forall_mem_append] at hopp
    obtain ⟨htest, hbody, hotherwise⟩ := hopp
    obtain ⟨hline, hfollows⟩ := hfollows
    obtain ⟨-, harm⟩ := woven_arm loop finish otherwise htest (Stmt.wovenAll hbody)
      (Otherwise.woven hotherwise) hfollows
    rw [hline] at harm
    rw [Otherwise.fold, Otherwise.emit, Otherwise.emit, Loop.map_kind_move]
    exact .move _ rfl hline harm

/-- Statements weave with their folded forms, if no sign in them is in front of a number that has no
    opposite. -/
theorem Stmt.wovenAll {shift : Nat → Nat} {loop : Option Loop} :
    ∀ {body : List (Stmt Int64)} {before : Line} {start : Nat},
      (∀ e ∈ Stmt.exprsOf body, e.HasOpposites) →
      Follows shift start (Stmt.widthsOf (loop.map Loop.kind) before body) →
      Woven shift start (Stmt.emitAll loop before start (Stmt.foldBody body))
        (Stmt.emitAll (loop.map (Loop.move shift)) before (shift start) body)
  | [], _, _, _, _ => .nil
  | stmt :: rest, before, start, hopp, hfollows => by
    rw [Stmt.exprsOf_cons, List.forall_mem_append] at hopp
    simp only [Stmt.widthsOf, follows_append, List.length_append, List.length_replicate,
      Stmt.length_widths] at hfollows
    obtain ⟨⟨hline, hstmt⟩, hrest⟩ := hfollows
    -- Folding changes no line, so `line` instructions stand before the same statements.
    have hline := woven_emitLine hline
    have hinner := hline.shift_eq
    have hstmt := Stmt.woven hopp.1 hstmt
    have hnext := hstmt.shift_eq
    -- The addresses of the unfolded parts are those that the shift gives for the folded ones.
    rw [length_emitLine] at hinner
    rw [Stmt.length_emit, Stmt.length_emit, Loop.map_kind_move, hinner, Nat.add_assoc] at hnext
    have hrest := Stmt.wovenAll hopp.2 hrest
    rw [hnext] at hrest
    rw [hinner] at hstmt
    simp only [Stmt.foldBody, Stmt.emitAll, Stmt.line_fold, Loop.map_kind_move]
    rw [Nat.add_assoc start]
    exact (hline.append (by simp) hstmt).append (by simp) hrest

end

/-! ## Weaving codes -/

/-- Two codes are the same apart from signs, and `shift` says which of their addresses
    correspond. -/
structure Code.Weaves (shift : Nat → Nat) (code code' : Code) : Prop where
  name_eq : code'.name = code.name
  params_eq : code'.params = code.params
  firstLine_eq : code'.firstLine = code.firstLine
  shift_zero : shift 0 = 0
  woven (n : Nat) : Woven shift n (code.instrs.drop n) (code'.instrs.drop (shift n))

section Codes

variable {widths : List Nat} {instrs instrs' : List Instr}

/-- What is left of woven instructions at any address is woven. -/
theorem Woven.drop_addressBy (h : Woven (addressBy widths) 0 instrs instrs')
    (hlength : widths.length = instrs.length) (n : Nat) :
    Woven (addressBy widths) n (instrs.drop n) (instrs'.drop (addressBy widths n)) := by
  rcases Nat.le_total n instrs.length with hle | hge
  · obtain ⟨k, hshift, hdrop⟩ := h.drop hle
    rw [addressBy_zero, Nat.zero_add, Nat.zero_add] at hshift
    rwa [Nat.zero_add, ← hshift] at hdrop
  · have hend := h.shift_eq
    rw [addressBy_zero, Nat.zero_add, Nat.zero_add, ← hlength] at hend
    rw [addressBy_of_le (hlength ▸ hge), hend, List.drop_of_length_le hge, List.drop_length]
    exact .nil

/-- The two codes of a definition are woven. -/
theorem Foldable.exists_weaves (d : Foldable) : ∃ shift, Code.Weaves shift d.folded d.plain := by
  let widths := Stmt.widthsOf none d.line d.body ++ [1, 1]
  have hfollows : Follows (addressBy widths) 0 widths := follows_addressBy [] widths
  obtain ⟨hbody, hnone, hleave, -⟩ := follows_append.1 hfollows
  have hbody := @Stmt.wovenAll _ none _ _ _ d.hasOpposites hbody
  rw [addressBy_zero] at hbody
  have hwoven := hbody.append (by simp) (.const .none hnone (.move .leave rfl hleave .nil))
  exact ⟨_, rfl, rfl, rfl, addressBy_zero widths, hwoven.drop_addressBy (by simp [widths])⟩

/-- The code of a program and the one that it would have if no sign was folded are woven. -/
theorem Program.exists_weaves {plain : Program}
    (hopp : ∀ e ∈ Stmt.exprsOf plain, e.HasOpposites) :
    ∃ shift, Code.Weaves shift (Program.emit (Stmt.foldBody plain)) plain.emit := by
  let widths := Stmt.widthsOf none 0 plain
  have hfollows : Follows (addressBy widths) 0 widths := follows_addressBy [] widths
  have hwoven := @Stmt.wovenAll _ none _ _ _ hopp hfollows
  rw [addressBy_zero] at hwoven
  exact ⟨_, rfl, rfl, rfl, addressBy_zero widths, hwoven.drop_addressBy (by simp [widths])⟩

end Codes

end Linewise
