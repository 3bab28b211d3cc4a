import Linewise.Syntax.Rule

/-!
# What rules ensure

What is known of the lexemes before a rule and of those after it (`Rule.Ensures`): only the cases
in which the rule does not fail matter, and the reach does not. Most rules are known well enough by
how much they take from the front: something that may be nothing (`Rule.Takes`), or one lexeme at
least (`Rule.Consumes`). Where it matters what a rule reads but not how that goes together with the
lexemes, the two are told apart (`Rule.Gives`).
-/

namespace Linewise.Syntax.Rule

variable {α β : Type}

/-- Where `P` holds of the lexemes and the rule reads an `a` from them, `Q a` holds of those that
    it leaves. -/
def Ensures (p : Rule α) (P : List Lexeme → Prop) (Q : α → List Lexeme → Prop) : Prop :=
  ∀ ⦃lexemes rest reach reach' a⦄, P lexemes → p lexemes reach = (some (a, rest), reach') → Q a rest

/-- The rule leaves a suffix of the lexemes. -/
def Takes (p : Rule α) : Prop := ∀ whole, p.Ensures (· <:+ whole) fun _ rest => rest <:+ whole

/-- The rule leaves a suffix of the lexemes, and not all of them. -/
def Consumes (p : Rule α) : Prop :=
  ∀ whole, p.Ensures (· <:+ whole) fun _ rest => rest <:+ whole ∧ rest.length < whole.length

variable {p q : Rule α} {f : α → Rule β} {P P' : List Lexeme → Prop}
  {Q Q' : α → List Lexeme → Prop} {R : β → List Lexeme → Prop} {most : Nat}

/-! ## Rules of any kind -/

namespace Ensures

theorem conseq (h : p.Ensures P Q) (hP : ∀ lexemes, P' lexemes → P lexemes)
    (hQ : ∀ a rest, Q a rest → Q' a rest) : p.Ensures P' Q' :=
  fun lexemes _ _ _ _ hl heq => hQ _ _ (h (hP lexemes hl) heq)

theorem pure {a : α} (h : ∀ lexemes, P lexemes → Q a lexemes) :
    (Pure.pure a : Rule α).Ensures P Q := by
  intro lexemes rest reach reach' a hl heq
  cases heq
  exact h _ hl

theorem bind (hp : p.Ensures P Q) (hf : ∀ a, (f a).Ensures (Q a) R) :
    (p >>= f).Ensures P R := by
  intro lexemes rest reach reach' b hl heq
  simp only [Bind.bind] at heq
  split at heq
  case h_1 a mid r h => exact hf a (hp hl h) heq
  case h_2 => cases heq

theorem fail : (Rule.fail : Rule α).Ensures P Q := nofun

theorem mark {R : Unit → List Lexeme → Prop} (h : ∀ lexemes, P lexemes → R () lexemes) :
    Rule.mark.Ensures P R := by
  intro lexemes rest reach reach' a hl heq
  cases heq
  exact h _ hl

theorem current {R : Lexeme → List Lexeme → Prop}
    (h : ∀ lexeme rest, P (lexeme :: rest) → R lexeme (lexeme :: rest)) :
    Rule.current.Ensures P R := by
  intro lexemes rest reach reach' a hl heq
  cases lexemes with
  | nil => cases heq
  | cons lexeme tail => cases heq; exact h _ _ hl

/-- A rule that reads one lexeme ensures what holds of that lexeme. -/
theorem read {g : Token → Option α}
    (h : ∀ lexeme rest a, P (lexeme :: rest) → g lexeme.token = some a → Q a rest) :
    (Rule.read g).Ensures P Q := by
  intro lexemes rest reach reach' a hl heq
  cases lexemes with
  | nil => cases heq
  | cons lexeme tail =>
    simp only [Rule.read] at heq
    split at heq
    case h_1 b hb => cases heq; exact h _ _ _ hl hb
    case h_2 => cases heq

/-- Marking where a rule has been tried does not change what it ensures. -/
theorem named (h : p.Ensures P Q) : (Rule.named p).Ensures P Q := by
  intro lexemes rest reach reach' a hl heq
  simp only [Rule.named] at heq
  split at heq
  case h_1 r hp => cases heq; exact h hl hp
  case h_2 => cases heq

theorem optional {R : Option α → List Lexeme → Prop} (h : p.Ensures P fun a => R (some a))
    (hnone : ∀ lexemes, P lexemes → R none lexemes) : (Rule.optional p).Ensures P R := by
  intro lexemes rest reach reach' a hl heq
  simp only [Rule.optional] at heq
  split at heq
  case h_1 hp => cases heq; exact h hl hp
  case h_2 => cases heq; exact hnone _ hl

theorem orElse (hp : p.Ensures P Q) (hq : q.Ensures P Q) : (Rule.orElse p q).Ensures P Q := by
  intro lexemes rest reach reach' a hl heq
  simp only [Rule.orElse] at heq
  split at heq
  case h_1 h => cases heq; exact hp hl h
  case h_2 => exact hq hl heq

/-- What is known of the list read so far and the lexemes after it stays known. -/
theorem repeated {I : List α → List Lexeme → Prop}
    (h : ∀ before, p.Ensures (I before) fun a => I (before ++ [a])) :
    (Rule.repeated p most).Ensures (I []) I := by
  -- The induction needs the list that has been read before the rounds that are left.
  have key : ∀ before,
      (Rule.repeated p most).Ensures (I before) fun after => I (before ++ after) := by
    induction most with
    | zero => exact fun before => .pure fun _ hl => by rwa [List.append_nil]
    | succ most ih =>
      intro before
      refine .bind (Q := fun a rest => I (before ++ a.toList) rest)
        (.optional (h before) fun _ hl => by simpa using hl) fun a => ?_
      cases a with
      | none => exact .pure fun _ hl => hl
      | some a =>
        refine .bind (ih (before ++ [a])) fun after => .pure fun _ hl => ?_
        simpa using hl
  exact key []

end Ensures

/-! ## Rules that take from the front -/

theorem Consumes.takes (hp : p.Consumes) : p.Takes := fun whole =>
  (hp whole).conseq (fun _ h => h) fun _ _ h => h.1

/-- What is left after the first lexeme was taken is a suffix of the others. -/
theorem Consumes.ensures {first : Lexeme} {tail : List Lexeme} (hp : p.Consumes) :
    p.Ensures (· = first :: tail) fun _ rest => rest <:+ tail := by
  intro lexemes rest reach reach' a hl heq
  subst hl
  obtain ⟨hsuffix, hlength⟩ := hp _ (List.suffix_refl _) heq
  exact (List.suffix_cons_iff.1 hsuffix).resolve_left fun h => Nat.ne_of_lt hlength (by rw [h])

namespace Takes

theorem pure (a : α) : (Pure.pure a : Rule α).Takes := fun _ => .pure fun _ h => h

theorem bind (hp : p.Takes) (hf : ∀ a, (f a).Takes) : (p >>= f).Takes := fun whole =>
  .bind (hp whole) fun a => hf a whole

theorem bind_consumes (hp : p.Takes) (hf : ∀ a, (f a).Consumes) : (p >>= f).Consumes :=
  fun whole => .bind (hp whole) fun a => hf a whole

theorem current : Rule.current.Takes := fun _ => .current fun _ _ h => h

theorem optional (hp : p.Takes) : (Rule.optional p).Takes := fun whole =>
  .optional (hp whole) fun _ h => h

theorem repeated (hp : p.Takes) : (Rule.repeated p most).Takes := fun whole =>
  .repeated fun _ => hp whole

end Takes

namespace Consumes

theorem bind (hp : p.Consumes) (hf : ∀ a, (f a).Takes) : (p >>= f).Consumes := fun whole =>
  .bind (hp whole) fun a _ _ _ _ _ ⟨hsuffix, hlength⟩ heq =>
    have hrest := hf a _ (List.suffix_refl _) heq
    ⟨hrest.trans hsuffix, Nat.lt_of_le_of_lt hrest.length_le hlength⟩

theorem fail : (Rule.fail : Rule α).Consumes := fun _ => .fail

theorem read (g : Token → Option α) : (Rule.read g).Consumes := fun _ =>
  .read fun lexeme _ _ h _ => ⟨(List.suffix_cons lexeme _).trans h, h.length_le⟩

theorem token (t : Token) : (Rule.token t).Consumes := read _

theorem symbol (s : Symbol) : (Rule.symbol s).Consumes := token _

theorem named (hp : p.Consumes) : (Rule.named p).Consumes := fun whole => .named (hp whole)

theorem keyword (k : Keyword) : (Rule.keyword k).Consumes := named (token _)

theorem orElse (hp : p.Consumes) (hq : q.Consumes) : (Rule.orElse p q).Consumes := fun whole =>
  .orElse (hp whole) (hq whole)

theorem separated (hp : p.Consumes) : (Rule.separated most p).Consumes :=
  hp.bind fun _ => (Takes.repeated ((symbol _).bind fun _ => hp.takes).takes).bind fun _ => .pure _

theorem leftChain {op : Rule (α → α → α)} (hp : p.Consumes) (hop : op.Consumes) :
    (Rule.leftChain most p op).Consumes :=
  hp.bind fun _ => (Takes.repeated
    (hop.bind fun _ => hp.takes.bind fun _ => .pure _).takes).bind fun _ => .pure _

theorem prefixChain {op : Rule (α → α)} (hop : op.Consumes) (hp : p.Consumes) :
    (Rule.prefixChain most op p).Consumes :=
  hop.takes.repeated.bind_consumes fun _ => hp.bind fun _ => .pure _

end Consumes

/-! ## What rules read -/

/-- Where `P` holds of the lexemes and the rule reads something, `V` holds of that and `Q` of the
    lexemes that it leaves. -/
def Gives (p : Rule α) (P Q : List Lexeme → Prop) (V : α → Prop) : Prop :=
  p.Ensures P fun a rest => V a ∧ Q rest

namespace Gives

variable {P₁ P₂ : List Lexeme → Prop} {V V' : α → Prop} {W : β → Prop}

theorem imp (h : p.Gives P P₁ V) (hV : ∀ a, V a → V' a) : p.Gives P P₁ V' :=
  h.conseq (fun _ h => h) fun a _ h => ⟨hV a h.1, h.2⟩

theorem pure {a : α} (h : V a) : (Pure.pure a : Rule α).Gives P P V :=
  Ensures.pure fun _ hl => ⟨h, hl⟩

theorem bind (hp : p.Gives P P₁ V) (hf : ∀ a, V a → (f a).Gives P₁ P₂ W) : (p >>= f).Gives P P₂ W :=
  Ensures.bind hp fun a _ _ _ _ _ ⟨hV, hl⟩ heq => hf a hV hl heq

theorem fail : (Rule.fail : Rule α).Gives P P₁ V := Ensures.fail

theorem mark : Rule.mark.Gives P P fun _ => True := Ensures.mark fun _ h => ⟨trivial, h⟩

theorem current : Rule.current.Gives P P fun _ => True := Ensures.current fun _ _ h => ⟨trivial, h⟩

theorem named (h : p.Gives P P₁ V) : (Rule.named p).Gives P P₁ V := Ensures.named h

theorem orElse (hp : p.Gives P P₁ V) (hq : q.Gives P P₁ V) : (Rule.orElse p q).Gives P P₁ V :=
  Ensures.orElse hp hq

theorem optional (h : p.Gives P P V) : (Rule.optional p).Gives P P fun a => ∀ x ∈ a, V x :=
  Ensures.optional (h.imp fun a ha x hx => by cases hx; exact ha) fun _ hl => ⟨nofun, hl⟩

/-- Where what is known of the lexemes depends on how often a rule has been applied. -/
theorem counted {C : Nat → List Lexeme → Prop} (h : ∀ n, p.Gives (C n) (C (n + 1)) V) :
    (Rule.repeated p most).Ensures (C 0) fun items lexemes =>
      (∀ item ∈ items, V item) ∧ C items.length lexemes := by
  refine (Ensures.repeated (I := fun items lexemes => (∀ item ∈ items, V item) ∧
    C items.length lexemes) fun before => ?_).conseq (fun _ hl => ⟨nofun, hl⟩) fun _ _ h => h
  rintro lexemes rest reach reach' a ⟨hbefore, hl⟩ heq
  obtain ⟨ha, hrest⟩ := h _ hl heq
  refine ⟨fun item hitem => ?_, by rwa [List.length_append]⟩
  rcases List.mem_append.1 hitem with hitem | hitem
  · exact hbefore item hitem
  · rwa [List.mem_singleton.1 hitem]

theorem repeated (h : p.Gives P P V) :
    (Rule.repeated p most).Gives P P fun items => ∀ item ∈ items, V item :=
  counted (C := fun _ => P) fun _ => h

/-- Parts with commas in between give what each of them gives. -/
theorem separated (h : p.Gives P P V) (hcomma : (symbol .comma).Gives P P fun _ => True) :
    (Rule.separated most p).Gives P P fun items => ∀ item ∈ items, V item := by
  refine h.bind fun first hfirst => (hcomma.bind fun _ _ => h).repeated.bind fun rest hrest =>
    .pure fun item hitem => ?_
  rcases List.mem_cons.1 hitem with rfl | hitem
  · exact hfirst
  · exact hrest item hitem

/-- A chain of operators gives what joining two of its operands gives. -/
theorem leftChain {op : Rule (α → α → α)} {J : (α → α → α) → Prop} (hp : p.Gives P P V)
    (hop : op.Gives P P J) (hfirst : ∀ a, V a → V' a)
    (hjoin : ∀ join left right, J join → V' left → V right → V' (join left right)) :
    (Rule.leftChain most p op).Gives P P V' := by
  have hrest : (do let join ← op; let right ← p; return (join · right) : Rule (α → α)).Gives P P
      fun apply => ∀ left, V' left → V' (apply left) :=
    hop.bind fun join hJ => hp.bind fun right hright =>
      .pure fun left hleft => hjoin join left right hJ hleft hright
  refine hp.bind fun first hV => hrest.repeated.bind fun rest hrest => .pure ?_
  exact List.foldlRecOn rest _ (hfirst first hV) fun left hleft apply hmem =>
    hrest apply hmem left hleft

end Gives

end Linewise.Syntax.Rule
