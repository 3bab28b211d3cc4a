import Mathlib
import Linewise.Proofs.Syntax.Layer
import Linewise.Syntax.Resolve

/-!
# Integers in trees

The expressions that a tree is made of (`Expr.nodes`, `Stmt.exprs`), and what becomes of the
integers among them when signs are folded. An integer is folded to itself or to its opposite
(`Expr.exists_int_of_fold`). The least integer is the only one without an opposite: where it does
not occur (`Expr.HasOpposites`), every sign is folded exactly (`Expr.HasOpposites.toInt_neg`).
-/

namespace Linewise

variable {ι : Type}

/-! ## Parts of trees -/

mutual

/-- The expressions in an expression, itself included. -/
def Expr.nodes : Expr ι → List (Expr ι)
  | .list items => .list items :: Expr.nodesOf items
  | .subscript object index => .subscript object index :: (object.nodes ++ index.nodes)
  | .call callee args => .call callee args :: (callee.nodes ++ Expr.nodesOf args)
  | .unary op operand => .unary op operand :: operand.nodes
  | .binary op left right => .binary op left right :: (left.nodes ++ right.nodes)
  | .logic op left right => .logic op left right :: (left.nodes ++ right.nodes)
  | .int n => [.int n]
  | .float x => [.float x]
  | .str s => [.str s]
  | .bool b => [.bool b]
  | .none => [.none]
  | .ident name => [.ident name]

/-- The expressions in some expressions, these included. -/
def Expr.nodesOf : List (Expr ι) → List (Expr ι)
  | [] => []
  | item :: rest => item.nodes ++ Expr.nodesOf rest

end

@[simp]
theorem Expr.self_mem_nodes (e : Expr ι) : e ∈ e.nodes := by
  cases e <;> exact List.mem_cons_self

theorem Expr.mem_nodesOf {e : Expr ι} {items : List (Expr ι)} :
    e ∈ nodesOf items ↔ ∃ item ∈ items, e ∈ item.nodes := by
  induction items with
  | nil => simp [nodesOf]
  | cons item rest ih => simp [nodesOf, ih]

mutual

/-- What is in a part of an expression is in the expression. -/
theorem Expr.nodes_subset {e : Expr ι} : ∀ {whole : Expr ι}, e ∈ whole.nodes →
    e.nodes ⊆ whole.nodes
  | .list items, h => by
    rcases List.mem_cons.1 h with rfl | h
    · exact List.Subset.refl _
    · exact List.Subset.trans (Expr.nodesOf_subset h) (List.subset_cons_self _ _)
  | .unary _ operand, h => by
    rcases List.mem_cons.1 h with rfl | h
    · exact List.Subset.refl _
    · exact List.Subset.trans (Expr.nodes_subset h) (List.subset_cons_self _ _)
  | .subscript left right, h | .binary _ left right, h | .logic _ left right, h => by
    rcases List.mem_cons.1 h with rfl | h
    · exact List.Subset.refl _
    refine List.Subset.trans ?_ (List.subset_cons_self _ _)
    rcases List.mem_append.1 h with h | h
    · exact List.subset_append_of_subset_left _ (Expr.nodes_subset h)
    · exact List.subset_append_of_subset_right _ (Expr.nodes_subset h)
  | .call callee args, h => by
    rcases List.mem_cons.1 h with rfl | h
    · exact List.Subset.refl _
    refine List.Subset.trans ?_ (List.subset_cons_self _ _)
    rcases List.mem_append.1 h with h | h
    · exact List.subset_append_of_subset_left _ (Expr.nodes_subset h)
    · exact List.subset_append_of_subset_right _ (Expr.nodesOf_subset h)
  | .int _, h | .float _, h | .str _, h | .bool _, h | .none, h | .ident _, h => by
    rw [List.mem_singleton.1 h]
    exact List.Subset.refl _

theorem Expr.nodesOf_subset {e : Expr ι} : ∀ {items : List (Expr ι)}, e ∈ Expr.nodesOf items →
    e.nodes ⊆ Expr.nodesOf items
  | _ :: _, h => by
    rcases List.mem_append.1 h with h | h
    · exact List.subset_append_of_subset_left _ (Expr.nodes_subset h)
    · exact List.subset_append_of_subset_right _ (Expr.nodesOf_subset h)

end

/-- The expressions of a statement. -/
def Stmt.exprs (stmt : Stmt ι) : List (Expr ι) := (stmt.parts 0).filterMap Prod.snd

/-- The expressions of what a conditional may go on with. -/
def Otherwise.exprs (otherwise : Otherwise ι) : List (Expr ι) :=
  (otherwise.parts 0).filterMap Prod.snd

mutual

/-- The brackets around a statement make no difference to its expressions. -/
theorem Stmt.filterMap_parts (depth : Nat) : ∀ stmt : Stmt ι,
    (stmt.parts depth).filterMap Prod.snd = stmt.exprs
  | .branch _ _ body otherwise => by
    rw [Stmt.exprs]
    simp [Stmt.parts, Stmt.filterMap_partsOf _ body, Otherwise.filterMap_parts depth otherwise,
      Otherwise.filterMap_parts 0 otherwise]
  | .whileLoop _ _ body | .forLoop _ _ _ body | .define _ _ _ body _ => by
    simp [Stmt.exprs, Stmt.parts, Stmt.filterMap_partsOf _ body]
  | .leave _ value => by cases value <;> simp [Stmt.exprs, Stmt.parts]
  | .expr .. | .assign .. | .assignItem .. | .breakLoop _ | .continueLoop _ | .pass _ => by
    simp [Stmt.exprs, Stmt.parts]

theorem Otherwise.filterMap_parts (depth : Nat) : ∀ otherwise : Otherwise ι,
    (otherwise.parts depth).filterMap Prod.snd = otherwise.exprs
  | .nothing => rfl
  | .body body => by simp [Otherwise.exprs, Otherwise.parts, Stmt.filterMap_partsOf _ body]
  | .arm _ _ body otherwise => by
    rw [Otherwise.exprs]
    simp [Otherwise.parts, Stmt.filterMap_partsOf _ body, Otherwise.filterMap_parts depth otherwise,
      Otherwise.filterMap_parts 0 otherwise]

theorem Stmt.filterMap_partsOf (depth : Nat) : ∀ body : List (Stmt ι),
    (Stmt.partsOf depth body).filterMap Prod.snd = Stmt.exprsOf body
  | [] => rfl
  | stmt :: rest => by
    rw [Stmt.exprsOf]
    simp [Stmt.partsOf, Stmt.filterMap_parts depth stmt, Stmt.filterMap_parts 0 stmt,
      Stmt.filterMap_partsOf depth rest, Stmt.filterMap_partsOf 0 rest]

end

section Exprs

variable {line : Line} {name : String} {params : List String} {ident : Nat}
  {value index test : Expr ι} {stmt : Stmt ι} {body rest : List (Stmt ι)} {otherwise : Otherwise ι}

@[simp] theorem Stmt.exprs_expr : (Stmt.expr line value).exprs = [value] := rfl
@[simp] theorem Stmt.exprs_assign : (Stmt.assign line name value).exprs = [value] := rfl
@[simp] theorem Stmt.exprs_assignItem :
    (Stmt.assignItem line name index value).exprs = [index, value] := rfl
@[simp] theorem Stmt.exprs_leave {value : Option (Expr ι)} :
    (Stmt.leave line value).exprs = value.toList := by cases value <;> rfl
@[simp] theorem Stmt.exprs_breakLoop : (.breakLoop line : Stmt ι).exprs = [] := rfl
@[simp] theorem Stmt.exprs_continueLoop : (.continueLoop line : Stmt ι).exprs = [] := rfl
@[simp] theorem Stmt.exprs_pass : (.pass line : Stmt ι).exprs = [] := rfl

@[simp]
theorem Stmt.exprs_branch : (Stmt.branch line test body otherwise).exprs =
    test :: (Stmt.exprsOf body ++ otherwise.exprs) := by
  simp [exprs, parts, filterMap_partsOf, Otherwise.filterMap_parts]

@[simp]
theorem Stmt.exprs_whileLoop :
    (Stmt.whileLoop line test body).exprs = test :: Stmt.exprsOf body := by
  simp [exprs, parts, filterMap_partsOf]

@[simp]
theorem Stmt.exprs_forLoop :
    (Stmt.forLoop line name test body).exprs = test :: Stmt.exprsOf body := by
  simp [exprs, parts, filterMap_partsOf]

@[simp]
theorem Stmt.exprs_define :
    (Stmt.define line name params body ident).exprs = Stmt.exprsOf body := by
  simp [exprs, parts, filterMap_partsOf]

@[simp] theorem Otherwise.exprs_nothing : (.nothing : Otherwise ι).exprs = [] := rfl

@[simp]
theorem Otherwise.exprs_body : (Otherwise.body body).exprs = Stmt.exprsOf body := by
  simp [exprs, parts, Stmt.filterMap_partsOf]

@[simp]
theorem Otherwise.exprs_arm : (Otherwise.arm line test body otherwise).exprs =
    test :: (Stmt.exprsOf body ++ otherwise.exprs) := by
  rw [exprs]
  simp [parts, filterMap_parts, Stmt.filterMap_partsOf]

@[simp] theorem Stmt.exprsOf_nil : Stmt.exprsOf ([] : List (Stmt ι)) = [] := rfl

@[simp]
theorem Stmt.exprsOf_cons : Stmt.exprsOf (stmt :: rest) = stmt.exprs ++ Stmt.exprsOf rest := by
  simp [exprsOf, exprs, partsOf]

theorem Stmt.exprsOf_eq_flatMap (body : List (Stmt ι)) :
    Stmt.exprsOf body = body.flatMap Stmt.exprs := by
  induction body with
  | nil => rfl
  | cons stmt rest ih => rw [exprsOf_cons, ih, List.flatMap_cons]

end Exprs

/-! ## Signs -/

mutual

/-- Signs are folded in each expression of a statement by itself. -/
theorem Stmt.exprs_fold : ∀ stmt : Stmt Int64, stmt.fold.exprs = stmt.exprs.map Expr.fold
  | .branch _ _ body otherwise => by
    simp [Stmt.fold, Stmt.exprsOf_foldBody body, Otherwise.exprs_fold otherwise]
  | .whileLoop _ _ body | .forLoop _ _ _ body | .define _ _ _ body _ => by
    simp [Stmt.fold, Stmt.exprsOf_foldBody body]
  | .leave _ value => by cases value <;> rfl
  | .expr .. | .assign .. | .assignItem .. | .breakLoop _ | .continueLoop _ | .pass _ => rfl

theorem Otherwise.exprs_fold : ∀ otherwise : Otherwise Int64,
    otherwise.fold.exprs = otherwise.exprs.map Expr.fold
  | .nothing => rfl
  | .body body => by simp [Otherwise.fold, Stmt.exprsOf_foldBody body]
  | .arm _ _ body otherwise => by
    simp [Otherwise.fold, Stmt.exprsOf_foldBody body, Otherwise.exprs_fold otherwise]

theorem Stmt.exprsOf_foldBody : ∀ body : List (Stmt Int64),
    Stmt.exprsOf (Stmt.foldBody body) = (Stmt.exprsOf body).map Expr.fold
  | [] => rfl
  | stmt :: rest => by simp [Stmt.foldBody, Stmt.exprs_fold stmt, Stmt.exprsOf_foldBody rest]

end

namespace Expr

variable {e operand : Expr Int64} {n : Int64}

/-- A sign makes no new integer but the opposite of the number that it is in front of. -/
theorem mem_nodes_negate (h : .int n ∈ e.negate.nodes) :
    .int n ∈ e.nodes ∨ ∃ m, e = .int m ∧ n = -m := by
  cases e with
  | int m => exact .inr ⟨m, rfl, Expr.int.inj (List.mem_singleton.1 h)⟩
  | float x => cases List.mem_singleton.1 h
  | _ => exact .inl ((List.mem_cons.1 h).resolve_left nofun)

mutual

/-- What an integer is folded to differs from it by a sign. -/
theorem exists_int_of_fold : ∀ {e : Expr Int64} {n : Int64}, .int n ∈ e.fold.nodes →
    ∃ m, .int m ∈ e.nodes ∧ (n = m ∨ n = -m)
  | .int m, _, h => ⟨m, List.mem_cons_self, .inl (Expr.int.inj (List.mem_singleton.1 h))⟩
  | .list items, _, h => by
    obtain ⟨m, hm, hn⟩ := exists_int_of_foldItems ((List.mem_cons.1 h).resolve_left nofun)
    exact ⟨m, List.mem_cons_of_mem _ hm, hn⟩
  | .unary .neg operand, _, h => by
    rcases mem_nodes_negate h with h | ⟨k, hk, rfl⟩
    · obtain ⟨m, hm, hn⟩ := exists_int_of_fold h
      exact ⟨m, List.mem_cons_of_mem _ hm, hn⟩
    -- The negated literal was itself folded, so its sign may be turned twice.
    · have hmem : .int k ∈ operand.fold.nodes := by
        rw [hk]
        exact List.mem_cons_self
      obtain ⟨m, hm, rfl | rfl⟩ := exists_int_of_fold hmem
      · exact ⟨k, List.mem_cons_of_mem _ hm, .inr rfl⟩
      · exact ⟨m, List.mem_cons_of_mem _ hm, .inl Int64.neg_neg⟩
  | .unary .not operand, _, h => by
    obtain ⟨m, hm, hn⟩ := exists_int_of_fold ((List.mem_cons.1 h).resolve_left nofun)
    exact ⟨m, List.mem_cons_of_mem _ hm, hn⟩
  | .subscript left right, _, h | .binary _ left right, _, h | .logic _ left right, _, h => by
    rcases List.mem_append.1 ((List.mem_cons.1 h).resolve_left nofun) with h | h
    · obtain ⟨m, hm, hn⟩ := exists_int_of_fold h
      exact ⟨m, List.mem_cons_of_mem _ (List.mem_append_left _ hm), hn⟩
    · obtain ⟨m, hm, hn⟩ := exists_int_of_fold h
      exact ⟨m, List.mem_cons_of_mem _ (List.mem_append_right _ hm), hn⟩
  | .call callee args, _, h => by
    rcases List.mem_append.1 ((List.mem_cons.1 h).resolve_left nofun) with h | h
    · obtain ⟨m, hm, hn⟩ := exists_int_of_fold h
      exact ⟨m, List.mem_cons_of_mem _ (List.mem_append_left _ hm), hn⟩
    · obtain ⟨m, hm, hn⟩ := exists_int_of_foldItems h
      exact ⟨m, List.mem_cons_of_mem _ (List.mem_append_right _ hm), hn⟩
  | .float _, _, h | .str _, _, h | .bool _, _, h | .none, _, h | .ident _, _, h => by
    cases List.mem_singleton.1 h

/-- Folding makes no new integers among the items but opposites. -/
theorem exists_int_of_foldItems : ∀ {items : List (Expr Int64)} {n : Int64},
    .int n ∈ nodesOf (foldItems items) → ∃ m, .int m ∈ nodesOf items ∧ (n = m ∨ n = -m)
  | _ :: _, _, h => by
    rcases List.mem_append.1 h with h | h
    · obtain ⟨m, hm, hn⟩ := exists_int_of_fold h
      exact ⟨m, List.mem_append_left _ hm, hn⟩
    · obtain ⟨m, hm, hn⟩ := exists_int_of_foldItems h
      exact ⟨m, List.mem_append_right _ hm, hn⟩

end

/-- Each integer in the expression has an opposite: none is the least one. -/
def HasOpposites (e : Expr Int64) : Prop := ∀ n, .int n ∈ e.nodes → n ≠ Int64.minValue

namespace HasOpposites

/-- The opposite of an integer that has one is not the least integer. -/
theorem neg_ne_minValue (h : n ≠ Int64.minValue) : -n ≠ Int64.minValue := by
  intro heq
  refine h (Int64.neg_neg.symm.trans ?_)
  rw [heq]
  rfl

/-- Every integer but the least one has its opposite. -/
theorem toInt_neg_of_ne (h : n ≠ Int64.minValue) : (-n).toInt = -n.toInt := by
  have hle := n.le_toInt
  have hlt := n.toInt_lt
  have hne : n.toInt ≠ -2 ^ 63 := fun heq =>
    h (Int64.toInt_inj.1 (heq.trans Int64.toInt_minValue.symm))
  rw [Int64.toInt_neg, Int.bmod_eq_of_le (by omega) (by omega)]

theorem of_mem {part : Expr Int64} (h : e.HasOpposites) (hpart : part ∈ e.nodes) :
    part.HasOpposites :=
  fun n hn => h n (nodes_subset hpart hn)

theorem of_mem_items {items : List (Expr Int64)} (h : (Expr.list items).HasOpposites) :
    ∀ item ∈ items, item.HasOpposites :=
  fun item hitem => h.of_mem (List.mem_cons_of_mem _ (mem_nodesOf.2 ⟨item, hitem, by simp⟩))

theorem of_mem_args {callee : Expr Int64} {args : List (Expr Int64)}
    (h : (Expr.call callee args).HasOpposites) : ∀ arg ∈ args, arg.HasOpposites :=
  fun arg harg => h.of_mem (List.mem_cons_of_mem _ (List.mem_append_right _
    (mem_nodesOf.2 ⟨arg, harg, by simp⟩)))

/-- Folding signs does not lead to the least integer. -/
theorem fold (h : e.HasOpposites) : e.fold.HasOpposites := by
  intro n hn
  obtain ⟨m, hm, rfl | rfl⟩ := exists_int_of_fold hn
  · exact h n hm
  · exact neg_ne_minValue (h m hm)

/-- A sign is folded into an integer exactly. -/
theorem toInt_neg (h : e.HasOpposites) (hmem : .unary .neg operand ∈ e.nodes)
    (hfold : operand.fold = .int n) : (-n).toInt = -n.toInt := by
  have hoperand : operand.HasOpposites :=
    h.of_mem (nodes_subset hmem (List.mem_cons_of_mem _ operand.self_mem_nodes))
  refine toInt_neg_of_ne (hoperand.fold n ?_)
  rw [hfold]
  exact List.mem_cons_self

end HasOpposites

end Expr

end Linewise
