import Linewise.Builtin.Call
import Linewise.Value.Arithmetic
import Linewise.Value.Subscript

/-!
# Values with other functions

Nothing that is done with values looks into the functions among them: of a function only its name
and its identity count. So a function may be replaced by another one that goes by the same name
and is told apart in the same way (`KeepsHandles`), everywhere in a value (`Value.map`), and
every operation gives the same as before, up to the replacement:

* operators (`Value.applyUnary_map`, `Value.applyBinary_map`), also those that compare;
* subscripts, replaced items and the items of a loop (`Value.subscript_map`,
  `Value.replaceAt_map`, `Value.iterate_map`);
* built-in functions, with what they print (`Builtin.call_map`).
-/

namespace Linewise

variable {φ ψ : Type}

/-- The functions that `f` puts in the place of others go by the same names and are told apart in
    the same way. -/
structure KeepsHandles [FunctionHandle φ] [FunctionHandle ψ] (f : φ → ψ) : Prop where
  name_eq : ∀ g, FunctionHandle.name (f g) = FunctionHandle.name g
  ident_eq : ∀ g, FunctionHandle.ident (f g) = FunctionHandle.ident g

namespace Value

mutual

/-- The value with its functions replaced by what `f` makes of them. -/
@[simp]
def map (f : φ → ψ) : Value φ → Value ψ
  | none => none
  | bool b => bool b
  | int n => int n
  | float x => float x
  | str s => str s
  | list items => list (mapItems f items)
  | function g => function (f g)
  | builtin b => builtin b

/-- The values with their functions replaced by what `f` makes of them. -/
def mapItems (f : φ → ψ) : List (Value φ) → List (Value ψ)
  | [] => []
  | item :: rest => item.map f :: mapItems f rest

end

@[simp]
theorem mapItems_eq_map (f : φ → ψ) (items : List (Value φ)) :
    mapItems f items = items.map (map f) := by
  induction items with
  | nil => rfl
  | cons item rest ih => rw [mapItems, ih, List.map_cons]

mutual

theorem map_map {χ : Type} (g : ψ → χ) (f : φ → ψ) : ∀ v : Value φ, (v.map f).map g = v.map (g ∘ f)
  | none | bool _ | int _ | float _ | str _ | function _ | builtin _ => rfl
  | list items => congrArg list (mapItems_mapItems g f items)

theorem mapItems_mapItems {χ : Type} (g : ψ → χ) (f : φ → ψ) :
    ∀ items : List (Value φ), mapItems g (mapItems f items) = mapItems (g ∘ f) items
  | [] => rfl
  | item :: rest => by
    rw [mapItems, mapItems, mapItems, map_map g f item, mapItems_mapItems g f rest]

end

@[simp]
theorem kind_map (f : φ → ψ) (v : Value φ) : (v.map f).kind = v.kind := by
  cases v <;> rfl

@[simp]
theorem isTruthy_map (f : φ → ψ) (v : Value φ) : (v.map f).isTruthy = v.isTruthy := by
  cases v <;> simp [isTruthy]

@[simp]
theorem toFloat?_map (f : φ → ψ) (v : Value φ) : (v.map f).toFloat? = v.toFloat? := by
  cases v <;> rfl

@[simp]
theorem toInt?_map (f : φ → ψ) (v : Value φ) : (v.map f).toInt? = v.toInt? := by
  cases v <;> rfl

/-! ## Arithmetic -/

@[simp]
theorem exact_map (f : φ → ψ) (n : Int) : (exact n).map (map f) = exact n := by
  unfold exact
  split <;> rfl

theorem floatPair_map (f : φ → ψ) (op : BinaryOp) (v w : Value φ) :
    floatPair op (v.map f) (w.map f) = floatPair op v w := by
  simp [floatPair]

/-- A sum or a difference does not depend on what the functions in it are. -/
theorem arithmetic_map (f : φ → ψ) (op : BinaryOp) (onInt : Int → Int → Int)
    (onFloat : Float → Float → Float) (v w : Value φ) :
    arithmetic op onInt onFloat (v.map f) (w.map f) =
      (arithmetic op onInt onFloat v w).map (map f) := by
  have key : (do let xy ← floatPair op (v.map f) (w.map f); return float (onFloat xy.1 xy.2)) =
      (do let xy ← floatPair op v w; return float (onFloat xy.1 xy.2)).map (map f) := by
    rw [floatPair_map]
    cases floatPair op v w <;> rfl
  -- Two integers are exact; everything else goes through floating point.
  cases v <;> cases w <;> first | exact key | exact (exact_map f _).symm

theorem map_repeatItems (f : φ → ψ) (items : List (Value φ)) (count : Nat) :
    (repeatItems items count).map (map f) = repeatItems (items.map (map f)) count := by
  simp [repeatItems_eq, List.map_flatten]

theorem add_map (f : φ → ψ) (v w : Value φ) : add (v.map f) (w.map f) = (add v w).map (map f) := by
  have key := arithmetic_map f .add (· + ·) (· + ·) v w
  cases v <;> cases w <;> first | exact key | skip
  · rfl
  · simp [add, Except.map]

/-- A product does not depend on what the functions in it are. -/
theorem multiply_map (f : φ → ψ) (v w : Value φ) :
    multiply (v.map f) (w.map f) = (multiply v w).map (map f) := by
  -- A text or a list may stand on either side of a count; all other operands are numbers or fail.
  have key := arithmetic_map f .mul (· * ·) (· * ·) v w
  have text (s : String) (n : Int64) :
      (do return str (repeatText s (← repeatCount n s.utf8ByteSize)) : Except Cause (Value ψ)) =
        (do return str (repeatText s (← repeatCount n s.utf8ByteSize))).map (map f) := by
    cases repeatCount n s.utf8ByteSize <;> rfl
  have items (items : List (Value φ)) (n : Int64) :
      (do return list (repeatItems (mapItems f items) (← repeatCount n (mapItems f items).length)) :
        Except Cause (Value ψ)) =
        (do return list (repeatItems items (← repeatCount n items.length))).map (map f) := by
    rw [mapItems_eq_map, List.length_map]
    cases repeatCount n items.length with
    | error cause => rfl
    | ok count => simp [bind, Except.bind, pure, Except.pure, Except.map, map_repeatItems]
  cases v <;> cases w <;> first | exact key | exact text _ _ | exact items _ _

theorem divisionPair_map (f : φ → ψ) (op : BinaryOp) (division : Division) (v w : Value φ) :
    divisionPair op division (v.map f) (w.map f) = divisionPair op division v w := by
  simp [divisionPair, floatPair_map]

/-- A quotient or a remainder does not depend on what the functions in it are. -/
theorem division_map (f : φ → ψ) (op : BinaryOp) (division : Division)
    (onFloat : Float → Float → Float) (v w : Value φ) :
    (do
      let (x, y) ← divisionPair op division (v.map f) (w.map f)
      return float (onFloat x y)) =
    (do
      let (x, y) ← divisionPair op division v w
      return float (onFloat x y)).map (map f) := by
  rw [divisionPair_map]
  cases divisionPair op division v w <;> rfl

theorem divide_map (f : φ → ψ) (v w : Value φ) :
    divide (v.map f) (w.map f) = (divide v w).map (map f) :=
  division_map f .div .quotient (· / ·) v w

theorem floorDivide_map (f : φ → ψ) (v w : Value φ) :
    floorDivide (v.map f) (w.map f) = (floorDivide v w).map (map f) := by
  have key := division_map f .floorDiv .floatFloor (fun x y => floorOf (x / y)) v w
  cases v <;> cases w <;> first | exact key | skip
  -- Two integers are left, which are divided exactly.
  simp only [map, floorDivide]
  split
  · rfl
  · exact (exact_map f _).symm

theorem modulo_map (f : φ → ψ) (v w : Value φ) :
    modulo (v.map f) (w.map f) = (modulo v w).map (map f) := by
  have key := division_map f .mod .floatRemainder (fun x y => x - y * floorOf (x / y)) v w
  cases v <;> cases w <;> first | exact key | skip
  simp only [map, modulo]
  split
  · rfl
  · exact (exact_map f _).symm

theorem applyUnary_map (f : φ → ψ) (op : UnaryOp) (v : Value φ) :
    applyUnary op (v.map f) = (applyUnary op v).map (map f) := by
  cases op with
  | not => simp [applyUnary, Except.map]
  | neg => cases v <;> first | rfl | exact (exact_map f _).symm

/-! ## Equality and order -/

section Handles

variable [FunctionHandle φ] [FunctionHandle ψ] {f : φ → ψ}

mutual

/-- Values are equal whatever functions stand for, as long as they are told apart alike. -/
theorem equal_map (hf : KeepsHandles f) : ∀ v w : Value φ, equal (v.map f) (w.map f) = equal v w
  | list xs, list ys => equalItems_map hf xs ys
  | none, w | bool _, w | int _, w | float _, w | str _, w | function _, w | builtin _, w => by
    cases w <;> simp [equal, toFloat?, hf.ident_eq]
  | list _, none | list _, bool _ | list _, int _ | list _, float _ | list _, str _
  | list _, function _ | list _, builtin _ => by simp [equal, toFloat?]

theorem equalItems_map (hf : KeepsHandles f) :
    ∀ xs ys : List (Value φ), equalItems (mapItems f xs) (mapItems f ys) = equalItems xs ys
  | [], [] | [], _ :: _ | _ :: _, [] => rfl
  | x :: xs, y :: ys => by
    rw [mapItems, mapItems, equalItems, equalItems, equal_map hf x y, equalItems_map hf xs ys]

end

mutual

/-- Values are ordered alike whatever functions stand for, as long as they are told apart alike. -/
theorem compare_map (hf : KeepsHandles f) :
    ∀ v w : Value φ, compare (v.map f) (w.map f) = compare v w
  | list xs, list ys => compareItems_map hf xs ys
  | none, w | bool _, w | int _, w | float _, w | str _, w | function _, w | builtin _, w => by
    cases w <;> rfl
  | list _, none | list _, bool _ | list _, int _ | list _, float _ | list _, str _
  | list _, function _ | list _, builtin _ => rfl

theorem compareItems_map (hf : KeepsHandles f) :
    ∀ xs ys : List (Value φ), compareItems (mapItems f xs) (mapItems f ys) = compareItems xs ys
  | [], [] | [], _ :: _ | _ :: _, [] => rfl
  | x :: xs, y :: ys => by
    rw [mapItems, mapItems, compareItems, compareItems, equal_map hf x y, compare_map hf x y,
      compareItems_map hf xs ys]

end

theorem ordered_map (hf : KeepsHandles f) (op : BinaryOp) (accepts : Ordering → Bool)
    (v w : Value φ) :
    ordered op accepts (v.map f) (w.map f) = (ordered op accepts v w).map (map f) := by
  rw [ordered, compare_map hf, kind_map, kind_map, ordered]
  cases compare v w <;> rfl

/-- An operator on two values gives the same whatever functions stand for, as long as they are told
    apart alike. -/
theorem applyBinary_map (hf : KeepsHandles f) (op : BinaryOp) (v w : Value φ) :
    applyBinary op (v.map f) (w.map f) = (applyBinary op v w).map (map f) := by
  cases op with
  | add => exact add_map f v w
  | sub => exact arithmetic_map f .sub (· - ·) (· - ·) v w
  | mul => exact multiply_map f v w
  | div => exact divide_map f v w
  | floorDiv => exact floorDivide_map f v w
  | mod => exact modulo_map f v w
  | eq | ne => simp [applyBinary, equal_map hf, Except.map]
  | lt | le | gt | ge => exact ordered_map hf _ _ v w

/-! ## Texts -/

mutual

/-- The text of a value shows of a function only what handles tell. -/
theorem text_map (hf : KeepsHandles f) (nested : Bool) :
    ∀ v : Value φ, (v.map f).text nested = v.text nested
  | list items => listText_map hf items
  | function g => congrArg (fun name => s!"<function {name}>") (hf.name_eq g)
  | none | bool true | bool false | int _ | float _ | str _ | builtin _ => rfl

theorem listText_map (hf : KeepsHandles f) :
    ∀ items : List (Value φ), listText (mapItems f items) = listText items
  | [] => rfl
  | item :: rest => by rw [mapItems, listText, listText, text_map hf, itemsText_map hf]

theorem itemsText_map (hf : KeepsHandles f) (written : String) :
    ∀ items : List (Value φ), itemsText written (mapItems f items) = itemsText written items
  | [] => rfl
  | item :: rest => by rw [mapItems, itemsText, itemsText, text_map hf, itemsText_map hf]

end

theorem display_map (hf : KeepsHandles f) (v : Value φ) : (v.map f).display = v.display :=
  text_map hf false v

/-! ## Sequences -/

theorem better_map (hf : KeepsHandles f) (extreme : Extreme) (best candidate : Value φ) :
    better extreme (best.map f) (candidate.map f) =
      (better extreme best candidate).map (map f) := by
  rw [better, compare_map hf, better, kind_map, kind_map]
  cases compare candidate best with
  | none => rfl
  | some order => simp only [Except.map]; split <;> rfl

/-- The pick among candidates is the same whatever functions stand for, as long as they are told
    apart alike. -/
theorem foldlM_better_map (hf : KeepsHandles f) (extreme : Extreme) (rest : List (Value φ))
    (best : Value φ) :
    (rest.map (map f)).foldlM (better extreme) (best.map f) =
      (rest.foldlM (better extreme) best).map (map f) := by
  induction rest generalizing best with
  | nil => rfl
  | cons candidate rest ih =>
    rw [List.map_cons, List.foldlM_cons, List.foldlM_cons, better_map hf]
    cases better extreme best candidate with
    | error cause => rfl
    | ok best => exact ih best

omit [FunctionHandle φ] [FunctionHandle ψ] in
theorem candidates_map (f : φ → ψ) (args : List (Value φ)) :
    candidates (args.map (map f)) = (candidates args).map (List.map (map f)) := by
  rcases args with _ | ⟨v, _ | ⟨w, rest⟩⟩
  · rfl
  · cases v <;> simp [candidates, kind, Except.map]
  · cases v <;> rfl

theorem pick_map (hf : KeepsHandles f) (extreme : Extreme) (args : List (Value φ)) :
    pick extreme (args.map (map f)) = (pick extreme args).map (map f) := by
  rw [pick, candidates_map, pick]
  cases candidates args with
  | error cause => rfl
  | ok items =>
    cases items with
    | nil => rfl
    | cons first rest => exact foldlM_better_map hf extreme rest first

end Handles

theorem rangeArgument_map (f : φ → ψ) (v : Value φ) :
    rangeArgument (v.map f) = rangeArgument v := by
  simp [rangeArgument]

/-- A range does not depend on what the functions among its arguments are, which it complains about
    by their kind. -/
theorem range_map (f : φ → ψ) (args : List (Value φ)) :
    range (args.map (map f)) = (range args).map (map f) := by
  have items (start step : Int) (count : Nat) :
      rangeItems start step count = (rangeItems start step count).map (map f) := by
    simp [rangeItems, Function.comp_def]
  -- Only the kinds of the arguments and the integers among them count.
  have arguments : (args.map (map f)).mapM rangeArgument = args.mapM rangeArgument := by
    rw [List.mapM_map]
    congr 1
    exact funext (rangeArgument_map f)
  rw [range, range, arguments]
  cases args.mapM rangeArgument with
  | error cause => rfl
  | ok bounds =>
    simp only [bind, Except.bind]
    cases rangeBounds bounds with
    | error cause => rfl
    | ok triple =>
      obtain ⟨start, stop, step⟩ := triple
      dsimp only
      split
      · rfl
      · split
        · rfl
        · exact congrArg (fun items => Except.ok (list items))
            ((items _ _ _).trans (mapItems_eq_map f _).symm)

theorem length_map (f : φ → ψ) (v : Value φ) : (v.map f).length = v.length.map (map f) := by
  cases v <;> simp [length, kind, Except.map]

theorem append_map (f : φ → ψ) (args : List (Value φ)) :
    append (args.map (map f)) = (append args).map (map f) := by
  rcases args with _ | ⟨v, _ | ⟨w, _ | ⟨_, _⟩⟩⟩
  · rfl
  · cases v <;> rfl
  · cases v <;> simp [append, kind, Except.map]
  · cases v <;> rfl

theorem position_map (f : φ → ψ) (access : Access) (length : Nat) (index : Value φ) :
    position access length (index.map f) = position access length index := by
  simp [position]

/-- The item at an index does not depend on what the functions in a list are. -/
theorem subscript_map (f : φ → ψ) (v index : Value φ) :
    subscript (v.map f) (index.map f) = (subscript v index).map (map f) := by
  cases v with
  | list items =>
    simp only [map, mapItems_eq_map, subscript, List.length_map, position_map]
    cases position .listItem items.length index with
    | error cause => rfl
    | ok place =>
      simp [bind, Except.bind, pure, Except.pure, Except.map, List.getD_eq_getElem?_getD]
      cases items[place]? <;> rfl
  | str s =>
    simp only [map, subscript, position_map]
    cases position .character s.toList.length index <;> rfl
  | _ => rfl

/-- An item is replaced whatever the functions in the list stand for. -/
theorem replaceAt_map (f : φ → ψ) (v index item : Value φ) :
    replaceAt (v.map f) (index.map f) (item.map f) = (replaceAt v index item).map (map f) := by
  cases v with
  | list items =>
    simp only [map, mapItems_eq_map, replaceAt, List.length_map, position_map]
    cases position .listAssignment items.length index with
    | error cause => rfl
    | ok place => simp [bind, Except.bind, pure, Except.pure, Except.map, List.map_set]
  | _ => rfl

theorem iterate_map (f : φ → ψ) (v : Value φ) :
    (v.map f).iterate = v.iterate.map (List.map (map f)) := by
  cases v <;> simp [iterate, kind, Except.map]

/-! ## Conversions -/

theorem convertInt_map (f : φ → ψ) (v : Value φ) :
    (v.map f).convertInt = v.convertInt.map (map f) := by
  cases v with
  | str s => simp only [map, convertInt]; cases Numeral.int64? (Text.trim s) <;> rfl
  | float x => simp only [map, convertInt]; split <;> rfl
  | _ => rfl

theorem convertFloat_map (f : φ → ψ) (v : Value φ) :
    (v.map f).convertFloat = v.convertFloat.map (map f) := by
  cases v with
  | str s => simp only [map, convertFloat]; cases Decimal.read? (Text.trim s) <;> rfl
  | _ => rfl

theorem absolute_map (f : φ → ψ) (v : Value φ) : (v.map f).absolute = v.absolute.map (map f) := by
  cases v with
  | int n => simp only [map, absolute]; split <;> rfl
  | _ => rfl

end Value

namespace Builtin

variable [FunctionHandle φ] [FunctionHandle ψ] {f : φ → ψ}

/-- The reply with its functions replaced by what `f` makes of them. -/
def Reply.map (f : φ → ψ) (reply : Reply φ) : Reply ψ := ⟨reply.value.map f, reply.printed⟩

theorem line_map (hf : KeepsHandles f) (args : List (Value φ)) :
    line (args.map (Value.map f)) = line args := by
  simp [line, Function.comp_def, Value.display_map hf]

omit [FunctionHandle φ] [FunctionHandle ψ] in
theorem single_map (f : φ → ψ) (callee : Builtin) (args : List (Value φ)) :
    single callee (args.map (Value.map f)) = (single callee args).map (Value.map f) := by
  rcases args with _ | ⟨v, _ | ⟨w, rest⟩⟩ <;> simp [single, Except.map]

/-- What a built-in function gives does not depend on what the functions among its arguments are,
    but for their names and identities. -/
theorem value_map (hf : KeepsHandles f) (callee : Builtin) (args : List (Value φ)) :
    value callee (args.map (Value.map f)) = (value callee args).map (Value.map f) := by
  cases callee with
  | print => rfl
  | range => exact Value.range_map f args
  | min => exact Value.pick_map hf .least args
  | max => exact Value.pick_map hf .greatest args
  | append => exact Value.append_map f args
  | str | int | float | len | abs | type =>
    simp only [value, single_map]
    cases single _ args with
    | error cause => rfl
    | ok v =>
      first
      | exact Value.convertInt_map f v | exact Value.convertFloat_map f v
      | exact Value.length_map f v | exact Value.absolute_map f v
      | simp [bind, Except.bind, pure, Except.pure, Except.map, Value.display_map hf]

theorem call_map (hf : KeepsHandles f) (callee : Builtin) (args : List (Value φ)) :
    call callee (args.map (Value.map f)) = (call callee args).map (Reply.map f) := by
  rw [call, value_map hf, line_map hf, call]
  cases value callee args <;> rfl

end Builtin

end Linewise
