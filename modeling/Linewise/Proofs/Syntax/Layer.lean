import Linewise.Syntax.Tree
import Mathlib.Tactic.Ring

/-!
# Layers of expressions

How deep a tree goes (`Expr.height`), how many brackets stand around each of its nodes
(`Expr.depths`), and how many operators of one layer follow each other on the left of it
(`Expr.longestChain`). A tree that fits a limit layer by layer (`Expr.Fits`) has no node inside of
more brackets than the limit (`Expr.Fits.depths_le`). Its height is bounded by the limit and its
longest chain (`Expr.Fits.height_le`): brackets and prefix operators count against the limit, chains
do not.
-/

namespace Linewise

/-! ## Layers -/

/-- The layers of expressions, the tightest one first. Those of the prefix operators tell how many
    of them stand in front. -/
inductive Layer
  | primary
  | postfixed
  | negation (signs : Nat)
  | product
  | sum
  | comparison
  | inversion (signs : Nat)
  | conjunction
  | disjunction
  /-- Whatever may stand in brackets. -/
  | whole
  deriving DecidableEq

namespace Layer

/-- The number of layers that are tighter. -/
def rank : Layer → Nat
  | primary => 0
  | postfixed => 1
  | negation _ => 2
  | product => 3
  | sum => 4
  | comparison => 5
  | inversion _ => 6
  | conjunction => 7
  | disjunction => 8
  | whole => 9

/-- The prefix operators in front. -/
def run : Layer → Nat
  | negation signs | inversion signs => signs
  | _ => 0

end Layer

/-- The layer that the operator belongs to. -/
def BinaryOp.layer : BinaryOp → Layer
  | mul | div | floorDiv | mod => .product
  | add | sub => .sum
  | eq | ne | lt | le | gt | ge => .comparison

/-- The layer that the operator belongs to. -/
def LogicOp.layer : LogicOp → Layer
  | and => .conjunction
  | or => .disjunction

namespace Expr

variable {ι : Type}

/-! ## Measures -/

/-- The expression has no parts. -/
def isAtom : Expr ι → Bool
  | int _ | float _ | str _ | bool _ | none | ident _ => true
  | _ => false

mutual

/-- The number of nodes on the longest way down the tree. -/
def height : Expr ι → Nat
  | list items => heightOf items + 1
  | subscript object index => max object.height index.height + 1
  | call callee args => max callee.height (heightOf args) + 1
  | unary _ operand => operand.height + 1
  | binary _ left right | logic _ left right => max left.height right.height + 1
  | int _ | float _ | str _ | bool _ | none | ident _ => 1

/-- The greatest height of some trees. -/
def heightOf : List (Expr ι) → Nat
  | [] => 0
  | item :: rest => max item.height (heightOf rest)

end

mutual

/-- The number of brackets around each node, when there are `depth` of them around the tree. The
    brackets are those of lists, arguments and subscripts. -/
def depths (depth : Nat) : Expr ι → List Nat
  | list items => depth :: depthsOf (depth + 1) items
  | subscript object index => depth :: (object.depths depth ++ index.depths (depth + 1))
  | call callee args => depth :: (callee.depths depth ++ depthsOf (depth + 1) args)
  | unary _ operand => depth :: operand.depths depth
  | binary _ left right | logic _ left right =>
    depth :: (left.depths depth ++ right.depths depth)
  | int _ | float _ | str _ | bool _ | none | ident _ => [depth]

/-- The number of brackets around each node of some trees. -/
def depthsOf (depth : Nat) : List (Expr ι) → List Nat
  | [] => []
  | item :: rest => item.depths depth ++ depthsOf depth rest

end

/-- The operators of a layer that follow each other down the left of the tree, from its root on.
    Calls and subscripts are operators too. -/
def chain (layer : Layer) : Expr ι → Nat
  | subscript object _ => if layer = .postfixed then object.chain layer + 1 else 0
  | call callee _ => if layer = .postfixed then callee.chain layer + 1 else 0
  | binary op left _ => if layer = op.layer then left.chain layer + 1 else 0
  | logic op left _ => if layer = op.layer then left.chain layer + 1 else 0
  | _ => 0

mutual

/-- The length of the longest chain of operators of one layer in the tree. -/
def longestChain : Expr ι → Nat
  | list items => longestChainOf items
  | subscript object index =>
    max (object.chain .postfixed + 1) (max object.longestChain index.longestChain)
  | call callee args =>
    max (callee.chain .postfixed + 1) (max callee.longestChain (longestChainOf args))
  | unary _ operand => operand.longestChain
  | binary op left right =>
    max (left.chain op.layer + 1) (max left.longestChain right.longestChain)
  | logic op left right =>
    max (left.chain op.layer + 1) (max left.longestChain right.longestChain)
  | int _ | float _ | str _ | bool _ | none | ident _ => 0

/-- The length of the longest chain in some trees. -/
def longestChainOf : List (Expr ι) → Nat
  | [] => 0
  | item :: rest => max item.longestChain (longestChainOf rest)

end

theorem heightOf_le_iff {items : List (Expr ι)} {n : Nat} :
    heightOf items ≤ n ↔ ∀ item ∈ items, item.height ≤ n := by
  induction items with
  | nil => simp [heightOf]
  | cons item rest ih => simp [heightOf, ih]

theorem longestChainOf_le_iff {items : List (Expr ι)} {n : Nat} :
    longestChainOf items ≤ n ↔ ∀ item ∈ items, item.longestChain ≤ n := by
  induction items with
  | nil => simp [longestChainOf]
  | cons item rest ih => simp [longestChainOf, ih]

/-- The depths of items are those of each of them. -/
theorem mem_depthsOf {items : List (Expr ι)} {depth d : Nat} :
    d ∈ depthsOf depth items ↔ ∃ item ∈ items, d ∈ item.depths depth := by
  induction items with
  | nil => simp [depthsOf]
  | cons item rest ih => simp [depthsOf, ih]

/-! ## Trees that fit a limit -/

/-- The expression belongs to a layer and nests within a limit when there are `depth` brackets
    around it. The limit is one for the brackets together with the prefix operators in front. -/
inductive Fits (limit : Nat) : (depth : Nat) → Layer → Expr ι → Prop
  | atom {depth layer e} (hdepth : depth ≤ limit) (hatom : e.isAtom = true) :
    Fits limit depth layer e
  | list {depth items} (hdepth : depth < limit)
    (hitems : ∀ item ∈ items, Fits limit (depth + 1) .whole item) :
    Fits limit depth .primary (list items)
  | parens {depth e} (he : Fits limit (depth + 1) .whole e) : Fits limit depth .primary e
  | subscript {depth object index} (hobject : Fits limit depth .postfixed object)
    (hindex : Fits limit (depth + 1) .whole index) :
    Fits limit depth .postfixed (subscript object index)
  | call {depth callee args} (hdepth : depth < limit) (hcallee : Fits limit depth .postfixed callee)
    (hargs : ∀ arg ∈ args, Fits limit (depth + 1) .whole arg) :
    Fits limit depth .postfixed (call callee args)
  | neg {depth signs e} (he : Fits limit depth (.negation signs) e) :
    Fits limit depth (.negation (signs + 1)) (unary .neg e)
  | not {depth signs e} (he : Fits limit depth (.inversion signs) e) :
    Fits limit depth (.inversion (signs + 1)) (unary .not e)
  | binary {depth layer op left right} (hleft : Fits limit depth op.layer left)
    (hright : Fits limit depth layer right) (hrun : depth + layer.run ≤ limit)
    (hrank : layer.rank < op.layer.rank) : Fits limit depth op.layer (binary op left right)
  | logic {depth layer op left right} (hleft : Fits limit depth op.layer left)
    (hright : Fits limit depth layer right) (hrun : depth + layer.run ≤ limit)
    (hrank : layer.rank < op.layer.rank) : Fits limit depth op.layer (logic op left right)
  | lift {depth layer layer' e} (he : Fits limit depth layer e) (hrun : depth + layer.run ≤ limit)
    (hrank : layer.rank < layer'.rank) : Fits limit depth layer' e

variable {limit depth : Nat} {layer layer' : Layer} {e : Expr ι}

/-- An expression that fits is no deeper than the limit. -/
theorem Fits.depth_le (h : Fits limit depth layer e) : depth ≤ limit := by
  induction h with
  | atom hdepth _ => exact hdepth
  | list hdepth _ _ => exact Nat.le_of_lt hdepth
  | parens _ ih => exact Nat.le_of_succ_le ih
  | subscript _ _ ih _ => exact ih
  | call hdepth _ _ _ _ => exact Nat.le_of_lt hdepth
  | neg _ ih | not _ ih => exact ih
  | binary _ _ _ _ ih _ | logic _ _ _ _ ih _ => exact ih
  | lift _ _ _ ih => exact ih

/-- No node of a tree that fits a limit has more brackets around it. Parentheses leave no node, so
    there may be fewer brackets around the tree than are counted. -/
theorem Fits.depths_le (h : Fits limit depth layer e) {n : Nat} (hn : n ≤ depth) :
    ∀ d ∈ e.depths n, d ≤ limit := by
  induction h generalizing n with
  | @atom depth layer e hdepth hatom =>
    have hnode : e.depths n = [n] := by cases e <;> first | rfl | cases hatom
    simpa [hnode] using Nat.le_trans hn hdepth
  | list hdepth _ ih =>
    intro d hd
    rcases List.mem_cons.1 hd with rfl | hd
    · omega
    · obtain ⟨item, hitem, hd⟩ := mem_depthsOf.1 hd
      exact ih item hitem (Nat.succ_le_succ hn) d hd
  | parens _ ih => exact ih (Nat.le_succ_of_le hn)
  | subscript hobject _ ihobject ihindex =>
    intro d hd
    rcases List.mem_cons.1 hd with rfl | hd
    · exact Nat.le_trans hn hobject.depth_le
    · rcases List.mem_append.1 hd with hd | hd
      · exact ihobject hn d hd
      · exact ihindex (Nat.succ_le_succ hn) d hd
  | call hdepth _ _ ihcallee ihargs =>
    intro d hd
    rcases List.mem_cons.1 hd with rfl | hd
    · omega
    · rcases List.mem_append.1 hd with hd | hd
      · exact ihcallee hn d hd
      · obtain ⟨arg, harg, hd⟩ := mem_depthsOf.1 hd
        exact ihargs arg harg (Nat.succ_le_succ hn) d hd
  | neg he ih | not he ih =>
    intro d hd
    rcases List.mem_cons.1 hd with rfl | hd
    · exact Nat.le_trans hn he.depth_le
    · exact ih hn d hd
  | binary hleft _ _ _ ihleft ihright | logic hleft _ _ _ ihleft ihright =>
    intro d hd
    rcases List.mem_cons.1 hd with rfl | hd
    · exact Nat.le_trans hn hleft.depth_le
    · rcases List.mem_append.1 hd with hd | hd
      · exact ihleft hn d hd
      · exact ihright hn d hd
  | lift _ _ _ ih => exact ih hn

/-! ## Heights -/

/-- The height of a tree of a layer without the chain at its root, when brackets and prefix
    operators have `room` left and no chain is longer than `longest`. -/
def ceiling (longest room : Nat) : Layer → Nat
  | .primary | .postfixed => 1 + room * (room + 6 * longest)
  | .negation signs => 1 + room * (room + 6 * longest) + longest + signs
  | .product => 1 + room * (room + 6 * longest) + longest + room
  | .sum => 1 + room * (room + 6 * longest) + 2 * longest + room
  | .comparison => 1 + room * (room + 6 * longest) + 3 * longest + room
  | .inversion signs => 1 + room * (room + 6 * longest) + 4 * longest + room + signs
  | .conjunction => 1 + room * (room + 6 * longest) + 4 * longest + 2 * room
  | .disjunction => 1 + room * (room + 6 * longest) + 5 * longest + 2 * room
  | .whole => 1 + room * (room + 6 * longest) + 6 * longest + 2 * room

variable {longest room : Nat}

theorem one_le_ceiling (layer : Layer) : 1 ≤ ceiling longest room layer := by
  cases layer <;> simp only [ceiling] <;> omega

/-- What stands in brackets is one bracket less deep. -/
theorem ceiling_whole (longest : Nat) (hdepth : depth < limit) :
    ceiling longest (limit - (depth + 1)) .whole + 1 =
      ceiling longest (limit - depth) .primary := by
  have hroom : limit - depth = limit - (depth + 1) + 1 := by omega
  rw [hroom]
  simp only [ceiling]
  ring

/-- The length that a chain of a layer may have. Prefix operators, brackets and what needs none
    make no chains. -/
def slack (longest : Nat) : Layer → Nat
  | .postfixed | .product | .sum | .comparison | .conjunction | .disjunction => longest
  | .primary | .negation _ | .inversion _ | .whole => 0

/-- A chain is no longer than the longest one, and outside of the layers that chain it has no
    length. -/
theorem chain_le (hchain : e.longestChain ≤ longest) : e.chain layer ≤ slack longest layer := by
  cases e with
  | subscript object index | call callee args =>
    rw [chain]
    split
    next heq =>
      rw [heq]
      exact Nat.le_trans (Nat.le_max_left _ _) hchain
    next => exact Nat.zero_le _
  | binary op left right | logic op left right =>
    rw [chain]
    split
    next heq =>
      have hslack : slack longest op.layer = longest := by cases op <;> rfl
      rw [heq, hslack]
      exact Nat.le_trans (Nat.le_max_left _ _) hchain
    next => exact Nat.zero_le _
  | _ => exact Nat.zero_le _

/-- A tree of a layer is not higher than the ceiling of a layer that is less tight. -/
theorem ceiling_add_slack_le (longest : Nat) (hrun : layer.run ≤ room)
    (hrank : layer.rank < layer'.rank) :
    ceiling longest room layer + slack longest layer ≤ ceiling longest room layer' := by
  cases layer <;> cases layer' <;> simp only [Layer.rank, Layer.run, ceiling, slack] at * <;> omega

/-- An expression that fits a layer is no higher than the ceiling of that layer, apart from the
    chain that it is itself. -/
theorem Fits.height_le_ceiling (h : Fits limit depth layer e) (hchain : e.longestChain ≤ longest) :
    e.height ≤ ceiling longest (limit - depth) layer + e.chain layer := by
  -- Only the layer that a chain belongs to has to know how long the chain is.
  have hslack : ∀ {room layer} {e : Expr ι}, e.longestChain ≤ longest →
      e.height ≤ ceiling longest room layer + e.chain layer →
        e.height ≤ ceiling longest room layer + slack longest layer := fun hchain h =>
    Nat.le_trans h (Nat.add_le_add_left (chain_le hchain) _)
  induction h with
  | @atom depth layer e hdepth hatom =>
    have hnode : e.height = 1 := by cases e <;> first | rfl | cases hatom
    rw [hnode]
    exact Nat.le_trans (one_le_ceiling layer) (Nat.le_add_right _ _)
  | list hdepth _ ih =>
    rw [← ceiling_whole longest hdepth]
    refine Nat.succ_le_succ (heightOf_le_iff.2 fun item hitem => ?_)
    have hitem' := longestChainOf_le_iff.1 hchain item hitem
    exact hslack hitem' (ih item hitem hitem')
  | parens he ih =>
    -- Parentheses begin anew with the widest layer, for which one level of depth has to pay.
    have hinner := hslack hchain (ih hchain)
    have hceiling := ceiling_whole longest he.depth_le
    simp only [slack] at hinner
    omega
  | subscript _ hindex ihobject ihindex =>
    simp only [longestChain, Nat.max_le] at hchain
    -- The object goes on with the chain, and the index begins anew in its brackets.
    have hroot := ihobject hchain.2.1
    have hinner := hslack hchain.2.2 (ihindex hchain.2.2)
    have hceiling := ceiling_whole longest hindex.depth_le
    simp only [height, chain, if_true, slack, ceiling] at *
    omega
  | @call depth callee args hdepth _ _ ihcallee ihargs =>
    simp only [longestChain, Nat.max_le] at hchain
    have hroot := ihcallee hchain.2.1
    have hinner : heightOf args ≤ ceiling longest (limit - (depth + 1)) .whole :=
      heightOf_le_iff.2 fun arg harg => by
        have harg' := longestChainOf_le_iff.1 hchain.2.2 arg harg
        exact hslack harg' (ihargs arg harg harg')
    have hceiling := ceiling_whole longest hdepth
    simp only [height, chain, if_true, ceiling] at *
    omega
  | neg _ ih | not _ ih =>
    rw [longestChain] at hchain
    have hoperand := hslack hchain (ih hchain)
    simp only [height, chain, slack, ceiling] at *
    omega
  | binary _ _ hrun hrank ihleft ihright | logic _ _ hrun hrank ihleft ihright =>
    simp only [longestChain, Nat.max_le] at hchain
    -- The left operand goes on with the chain, and the right one binds more tightly.
    have hroot := ihleft hchain.2.1
    have hinner := hslack hchain.2.2 (ihright hchain.2.2)
    have hceiling := ceiling_add_slack_le longest (Nat.le_sub_of_add_le' hrun) hrank
    simp only [height, chain, if_true]
    omega
  | lift _ hrun hrank ih =>
    have hceiling := ceiling_add_slack_le longest (Nat.le_sub_of_add_le' hrun) hrank
    exact Nat.le_trans (hslack hchain (ih hchain)) (Nat.le_add_right_of_le hceiling)

/-- How high a tree is that fits a limit: each bracket level has room for its prefix operators and
    for one chain of each of the six layers that have chains. -/
theorem Fits.height_le (h : Fits limit depth .whole e) :
    e.height ≤ (limit + 1) * (limit + 6 * e.longestChain + 1) := by
  have hheight := h.height_le_ceiling (Nat.le_refl _)
  have hchain : e.chain .whole ≤ 0 := chain_le (Nat.le_refl _)
  have hroom : limit - depth ≤ limit := Nat.sub_le _ _
  calc e.height
    _ ≤ ceiling e.longestChain (limit - depth) .whole := by omega
    _ = (limit - depth + 1) * (limit - depth + 6 * e.longestChain + 1) := by
      simp only [ceiling]
      ring
    _ ≤ (limit + 1) * (limit + 6 * e.longestChain + 1) := Nat.mul_le_mul (by omega) (by omega)

end Expr

/-! ## Statements -/

section Parts

variable {ι : Type}

mutual

/-- The parts of a statement that are nested in brackets, each with their number, when there are
    `depth` of them around the statement: expressions, and `none` for a statement. Besides the
    brackets of expressions there are the braces of bodies. -/
def Stmt.parts (depth : Nat) : Stmt ι → List (Nat × Option (Expr ι))
  | .expr _ value | .assign _ _ value => [(depth, none), (depth, some value)]
  | .assignItem _ _ index value => [(depth, none), (depth + 1, some index), (depth, some value)]
  | .branch _ test body otherwise =>
    (depth, none) :: (depth, some test) :: (Stmt.partsOf (depth + 1) body ++ otherwise.parts depth)
  | .whileLoop _ test body | .forLoop _ _ test body =>
    (depth, none) :: (depth, some test) :: Stmt.partsOf (depth + 1) body
  | .define _ _ _ body _ => (depth, none) :: Stmt.partsOf (depth + 1) body
  | .leave _ value => (depth, none) :: (value.map fun value => (depth, some value)).toList
  | .breakLoop _ | .continueLoop _ | .pass _ => [(depth, none)]

/-- The parts of what a conditional may go on with. -/
def Otherwise.parts (depth : Nat) : Otherwise ι → List (Nat × Option (Expr ι))
  | .nothing => []
  | .body body => Stmt.partsOf (depth + 1) body
  | .arm _ test body otherwise =>
    (depth, some test) :: (Stmt.partsOf (depth + 1) body ++ otherwise.parts depth)

/-- The parts of some statements. -/
def Stmt.partsOf (depth : Nat) : List (Stmt ι) → List (Nat × Option (Expr ι))
  | [] => []
  | stmt :: rest => stmt.parts depth ++ Stmt.partsOf depth rest

end

/-- The number of brackets around each statement of a body and each node of its expressions. -/
def Stmt.depthsOf (body : List (Stmt ι)) : List Nat :=
  (Stmt.partsOf 0 body).flatMap fun
    | (depth, none) => [depth]
    | (depth, some e) => e.depths depth

/-- The expressions of a body. -/
def Stmt.exprsOf (body : List (Stmt ι)) : List (Expr ι) := (Stmt.partsOf 0 body).filterMap Prod.snd

/-- A part of a body nests within a limit. -/
def PartFits (limit : Nat) : Nat × Option (Expr ι) → Prop
  | (depth, none) => depth ≤ limit
  | (depth, some e) => e.Fits limit depth .whole

/-- All parts nest within a limit. -/
def PartsFit (limit : Nat) (parts : List (Nat × Option (Expr ι))) : Prop :=
  ∀ part ∈ parts, PartFits limit part

variable {limit : Nat} {body : List (Stmt ι)}

theorem partsFit_nil : PartsFit limit ([] : List (Nat × Option (Expr ι))) := nofun

theorem partsFit_cons {part : Nat × Option (Expr ι)} {parts : List (Nat × Option (Expr ι))} :
    PartsFit limit (part :: parts) ↔ PartFits limit part ∧ PartsFit limit parts :=
  List.forall_mem_cons

/-- The parts of two sequences fit if those of each do. -/
theorem partsFit_append {parts parts' : List (Nat × Option (Expr ι))} :
    PartsFit limit (parts ++ parts') ↔ PartsFit limit parts ∧ PartsFit limit parts' :=
  List.forall_mem_append

/-- No part of a body that fits is nested more deeply than the limit. -/
theorem PartsFit.depths_le (h : PartsFit limit (Stmt.partsOf 0 body)) :
    ∀ d ∈ Stmt.depthsOf body, d ≤ limit := by
  intro d hd
  obtain ⟨⟨depth, part⟩, hmem, hd⟩ := List.mem_flatMap.1 hd
  have hfits := h _ hmem
  cases part with
  | none => rwa [List.mem_singleton.1 hd]
  | some e => exact hfits.depths_le (Nat.le_refl depth) d hd

/-- No expression of a body that fits is higher than the limit and its longest chain make
    possible. -/
theorem PartsFit.height_le (h : PartsFit limit (Stmt.partsOf 0 body)) :
    ∀ e ∈ Stmt.exprsOf body, e.height ≤ (limit + 1) * (limit + 6 * e.longestChain + 1) := by
  intro e he
  obtain ⟨⟨depth, part⟩, hmem, rfl⟩ := List.mem_filterMap.1 he
  exact (h _ hmem).height_le

end Parts

end Linewise
