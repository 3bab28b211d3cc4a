import Linewise.Code.Emission

/-!
# Which programs are refused

A program is refused for its first misplaced statement in the order of the text
(`Program.compile_eq_error_iff_misplaced`). What is misplaced is told here by the constructs that a
statement stands in (`Occurrence.IsMisplaced`): a `return` if none of them is a definition, a
`break` or a `continue` if none of those up to the innermost definition is a loop.

The compiler does not keep these constructs. It knows whether it is in a function and whether it is
in a loop of that function, and goes on from there with each construct that it enters. Both follow
from the constructs around (`Surroundings.of`), so what it finds, in the order in which it goes
through the arms and bodies, is what is found along all statements (`Stmt.misplacedIn?_of`).
-/

namespace Linewise

variable {ι : Type}

/-! ## Statements where they stand -/

/-- A construct with a body. -/
inductive Enclosure
  | conditional
  | loop
  | definition
  deriving DecidableEq

/-- The constructs within the innermost definition, out of all around a statement. -/
def Enclosure.withinDefinition (around : List Enclosure) : List Enclosure :=
  around.takeWhile (· ≠ .definition)

/-- A statement and the constructs that it stands in, the innermost one first. -/
structure Occurrence (ι : Type) where
  around : List Enclosure
  stmt : Stmt ι

mutual

/-- A statement and all that stand in it, in the order of the text. -/
def Stmt.occurrences (around : List Enclosure) : Stmt ι → List (Occurrence ι)
  | .branch line test body otherwise =>
    ⟨around, .branch line test body otherwise⟩ ::
      (Stmt.occurrencesIn (.conditional :: around) body ++
        otherwise.occurrences (.conditional :: around))
  | .whileLoop line test body =>
    ⟨around, .whileLoop line test body⟩ :: Stmt.occurrencesIn (.loop :: around) body
  | .forLoop line var iterable body =>
    ⟨around, .forLoop line var iterable body⟩ :: Stmt.occurrencesIn (.loop :: around) body
  | .define line name params body ident =>
    ⟨around, .define line name params body ident⟩ ::
      Stmt.occurrencesIn (.definition :: around) body
  | stmt => [⟨around, stmt⟩]

/-- The statements in the arms of a conditional, in the order of the text. -/
def Otherwise.occurrences (around : List Enclosure) : Otherwise ι → List (Occurrence ι)
  | .nothing => []
  | .body body => Stmt.occurrencesIn around body
  | .arm _ _ body otherwise => Stmt.occurrencesIn around body ++ otherwise.occurrences around

/-- The statements in a body, in the order of the text. -/
def Stmt.occurrencesIn (around : List Enclosure) : List (Stmt ι) → List (Occurrence ι)
  | [] => []
  | stmt :: rest => stmt.occurrences around ++ Stmt.occurrencesIn around rest

end

namespace Occurrence

/-- A statement stands where it has no meaning: a `return` in no definition, or a `break` or
    `continue` in no loop of the innermost definition, or of the script if there is none. -/
inductive IsMisplaced : Occurrence ι → Misplaced → Prop
  | leave {around : List Enclosure} {line : Line} {value : Option (Expr ι)} :
    .definition ∉ around → IsMisplaced ⟨around, .leave line value⟩ .returnOutside
  | breakLoop {around : List Enclosure} {line : Line} :
    .loop ∉ Enclosure.withinDefinition around →
      IsMisplaced ⟨around, .breakLoop line⟩ .breakOutside
  | continueLoop {around : List Enclosure} {line : Line} :
    .loop ∉ Enclosure.withinDefinition around →
      IsMisplaced ⟨around, .continueLoop line⟩ .continueOutside

/-- How a statement is misplaced, if it is. -/
def misplaced? (o : Occurrence ι) : Option Misplaced :=
  match o.stmt with
  | .leave .. => if .definition ∈ o.around then none else some .returnOutside
  | .breakLoop _ =>
    if .loop ∈ Enclosure.withinDefinition o.around then none else some .breakOutside
  | .continueLoop _ =>
    if .loop ∈ Enclosure.withinDefinition o.around then none else some .continueOutside
  | _ => none

/-- What `misplaced?` finds of a statement is what is wrong with its place. -/
theorem isMisplaced_iff {o : Occurrence ι} {jump : Misplaced} :
    o.IsMisplaced jump ↔ o.misplaced? = some jump := by
  constructor
  · rintro (h | h | h) <;> exact if_neg h
  · obtain ⟨around, stmt⟩ := o
    intro h
    -- Only the three jumps are ever out of place.
    cases stmt with
    | leave | breakLoop | continueLoop =>
      dsimp only [misplaced?] at h
      split at h
      · cases h
      next hout =>
        cases h
        constructor
        exact hout
    | _ => cases h

/-- The fault of a statement, if it is misplaced. -/
def fault? (o : Occurrence ι) : Option Fault :=
  o.misplaced?.map fun jump => jump.fault o.stmt.line

/-- An occurrence is at fault exactly if it is a misplaced jump, and the fault names the jump and
    its line. -/
theorem fault?_eq_some_iff {o : Occurrence ι} {fault : Fault} :
    o.fault? = some fault ↔ ∃ jump, o.IsMisplaced jump ∧ fault = jump.fault o.stmt.line := by
  simp only [fault?, Option.map_eq_some_iff, isMisplaced_iff, eq_comm (a := fault)]

/-- An occurrence without a fault is no misplaced jump. -/
theorem fault?_eq_none_iff {o : Occurrence ι} :
    o.fault? = none ↔ ∀ jump, ¬o.IsMisplaced jump := by
  rw [fault?, Option.map_eq_none_iff, Option.eq_none_iff_forall_ne_some]
  simp only [isMisplaced_iff, ne_eq]

theorem isSome_fault?_iff {o : Occurrence ι} :
    o.fault?.isSome ↔ ∃ jump, o.IsMisplaced jump := by
  rw [fault?, Option.isSome_map, Option.isSome_iff_exists]
  simp only [isMisplaced_iff]

end Occurrence

/-! ## What the compiler knows -/

/-- What the compiler knows of the constructs around a statement. -/
def Surroundings.of (around : List Enclosure) : Surroundings :=
  ⟨.definition ∈ around, .loop ∈ Enclosure.withinDefinition around⟩

namespace Surroundings

variable {around : List Enclosure}

theorem of_nil : of [] = outermost := rfl

theorem of_conditional : of (.conditional :: around) = of around := by
  simp [of, Enclosure.withinDefinition]

theorem of_loop : of (.loop :: around) = (of around).loop := by
  simp [of, loop, Enclosure.withinDefinition]

/-- No loop around a definition counts in it. -/
theorem of_definition : of (.definition :: around) = function := by
  simp [of, function, Enclosure.withinDefinition]

end Surroundings

mutual

/-- The compiler finds the first misplaced statement in a statement. -/
theorem Stmt.misplaced?_of (around : List Enclosure) : ∀ stmt : Stmt ι,
    stmt.misplaced? (.of around) = (stmt.occurrences around).findSome? Occurrence.fault?
  | .leave line _ => by
    by_cases h : .definition ∈ around <;>
      simp [Stmt.misplaced?, Stmt.occurrences, Surroundings.of, Occurrence.fault?,
        Occurrence.misplaced?, Stmt.line, h]
  | .breakLoop line | .continueLoop line => by
    by_cases h : .loop ∈ Enclosure.withinDefinition around <;>
      simp [Stmt.misplaced?, Stmt.occurrences, Surroundings.of, Occurrence.fault?,
        Occurrence.misplaced?, Stmt.line, h]
  | .branch line test body otherwise => by
    rw [Stmt.misplaced?, Stmt.occurrences, List.findSome?_cons, List.findSome?_append,
      ← Stmt.misplacedIn?_of _ body, ← Otherwise.misplaced?_of _ otherwise,
      Surroundings.of_conditional]
    rfl
  | .whileLoop _ _ body | .forLoop _ _ _ body => by
    rw [Stmt.misplaced?, Stmt.occurrences, List.findSome?_cons, ← Stmt.misplacedIn?_of _ body,
      Surroundings.of_loop]
    rfl
  | .define _ _ _ body _ => by
    rw [Stmt.misplaced?, Stmt.occurrences, List.findSome?_cons, ← Stmt.misplacedIn?_of _ body,
      Surroundings.of_definition]
    rfl
  | .expr .. | .assign .. | .assignItem .. | .pass _ => rfl

/-- The compiler finds the first misplaced statement in the arms of a conditional. -/
theorem Otherwise.misplaced?_of (around : List Enclosure) : ∀ otherwise : Otherwise ι,
    otherwise.misplaced? (.of around) =
      (otherwise.occurrences around).findSome? Occurrence.fault?
  | .nothing => rfl
  | .body body => Stmt.misplacedIn?_of around body
  | .arm _ _ body otherwise => by
    rw [Otherwise.misplaced?, Otherwise.occurrences, List.findSome?_append,
      Stmt.misplacedIn?_of around body, Otherwise.misplaced?_of around otherwise]

/-- The compiler finds the first misplaced statement in a body. -/
theorem Stmt.misplacedIn?_of (around : List Enclosure) : ∀ body : List (Stmt ι),
    Stmt.misplacedIn? (.of around) body =
      (Stmt.occurrencesIn around body).findSome? Occurrence.fault?
  | [] => rfl
  | stmt :: rest => by
    rw [Stmt.misplacedIn?, Stmt.occurrencesIn, List.findSome?_append,
      Stmt.misplaced?_of around stmt, Stmt.misplacedIn?_of around rest]

end

/-- A program is refused exactly if it has a misplaced statement: a `return` outside of all
    definitions, or a `break` or `continue` that no loop of the same definition, or of the script,
    encloses. The fault is then a syntax error with the line of the first of these statements in the
    order of the text, and with the message for it. -/
theorem Program.compile_eq_error_iff_misplaced (program : Program) :
    ((∃ fault, program.compile = .error fault) ↔
        ∃ o ∈ Stmt.occurrencesIn [] program, ∃ jump, o.IsMisplaced jump) ∧
      ∀ fault, program.compile = .error fault ↔
        ∃ before o after jump, Stmt.occurrencesIn [] program = before ++ o :: after ∧
          (∀ earlier ∈ before, ∀ jump, ¬earlier.IsMisplaced jump) ∧ o.IsMisplaced jump ∧
          fault = jump.fault o.stmt.line ∧ fault.cause.kind = .syntaxError ∧
          fault.cause.message = jump.message ∧
          fault.line = if o.stmt.line = 0 then none else some o.stmt.line := by
  -- Compilation stops at the first occurrence that has a fault, in the order of the text.
  have hfound (fault : Fault) : program.compile = .error fault ↔
      (Stmt.occurrencesIn [] program).findSome? Occurrence.fault? = some fault := by
    rw [← Stmt.misplacedIn?_of [] program, compile, Surroundings.of_nil]
    cases Stmt.misplacedIn? .outermost program <;> simp
  constructor
  · simp only [hfound, ← Option.isSome_iff_exists, List.isSome_findSome?, List.any_eq_true,
      Occurrence.isSome_fault?_iff]
  · intro fault
    rw [hfound, List.findSome?_eq_some_iff]
    constructor
    · rintro ⟨before, o, after, hsplit, hfault, hbefore⟩
      obtain ⟨jump, hjump, rfl⟩ := Occurrence.fault?_eq_some_iff.1 hfault
      exact ⟨before, o, after, jump, hsplit,
        fun earlier hmem => Occurrence.fault?_eq_none_iff.1 (hbefore earlier hmem), hjump, rfl, rfl,
        rfl, rfl⟩
    · rintro ⟨before, o, after, jump, hsplit, hbefore, hjump, hfault, -⟩
      exact ⟨before, o, after, hsplit, Occurrence.fault?_eq_some_iff.2 ⟨jump, hjump, hfault⟩,
        fun earlier hmem => Occurrence.fault?_eq_none_iff.2 (hbefore earlier hmem)⟩

/-- A loop around a definition does not count in it. -/
example : Program.compile
    [.whileLoop 1 (.bool true) [.define 2 "f" [] [.breakLoop 3] 0], .leave 4 none] =
      .error (Misplaced.breakOutside.fault 3) := rfl

end Linewise
