import Linewise.Syntax.Rule

/-!
# What rules read and refuse

A rule that is known to read something from the front of some lexemes (`Rule.Reads`), or to refuse
them (`Rule.Refuses`), does so wherever it has been tried before. The rules for choices, repetitions
and chains read what their parts read, and they leave out what these refuse.
-/

namespace Linewise.Syntax.Rule

variable {α β : Type}

/-- The rule reads an `a` from the lexemes and leaves `rest` of them. -/
def Reads (p : Rule α) (lexemes : List Lexeme) (a : α) (rest : List Lexeme) : Prop :=
  ∀ reach, ∃ reach', p lexemes reach = (some (a, rest), reach')

/-- The rule fails on the lexemes. -/
def Refuses (p : Rule α) (lexemes : List Lexeme) : Prop :=
  ∀ reach, ∃ reach', p lexemes reach = (none, reach')

variable {p q : Rule α} {f : α → Rule β} {lexemes mid rest : List Lexeme} {a : α} {as : List α}
  {b : β} {lexeme : Lexeme} {t : Token} {most : Nat}

/-! ## Refusals -/

namespace Refuses

theorem fail : (Rule.fail : Rule α).Refuses lexemes := fun reach => ⟨reach, rfl⟩

theorem bind (h : p.Refuses lexemes) : (p >>= f).Refuses lexemes := by
  intro reach
  obtain ⟨reach', hp⟩ := h reach
  exact ⟨reach', by simp only [Bind.bind, hp]⟩

theorem named (h : p.Refuses lexemes) : (Rule.named p).Refuses lexemes := by
  intro reach
  obtain ⟨reach', hp⟩ := h reach
  exact ⟨max reach' (front lexemes), by simp only [Rule.named, hp]⟩

theorem orElse (hp : p.Refuses lexemes) (hq : q.Refuses lexemes) :
    (Rule.orElse p q).Refuses lexemes := by
  intro reach
  obtain ⟨reach₁, hp⟩ := hp reach
  obtain ⟨reach₂, hq⟩ := hq reach₁
  exact ⟨reach₂, by simp only [Rule.orElse, hp, hq]⟩

theorem read {g : Token → Option α} (h : g lexeme.token = none) :
    (Rule.read g).Refuses (lexeme :: rest) :=
  fun reach => ⟨reach, by simp only [Rule.read, h]⟩

theorem token (h : lexeme.token ≠ t) : (Rule.token t).Refuses (lexeme :: rest) :=
  read (if_neg h)

theorem keyword {k : Keyword} (h : lexeme.token ≠ .keyword k) :
    (Rule.keyword k).Refuses (lexeme :: rest) :=
  named (token h)

theorem leftChain {op : Rule (α → α → α)} (h : p.Refuses lexemes) :
    (Rule.leftChain most p op).Refuses lexemes :=
  h.bind

end Refuses

/-! ## Readings -/

namespace Reads

theorem pure (a : α) (lexemes : List Lexeme) : (Pure.pure a : Rule α).Reads lexemes a lexemes :=
  fun reach => ⟨reach, rfl⟩

theorem bind (hp : p.Reads lexemes a mid) (hf : (f a).Reads mid b rest) :
    (p >>= f).Reads lexemes b rest := by
  intro reach
  obtain ⟨reach₁, hp⟩ := hp reach
  obtain ⟨reach₂, hf⟩ := hf reach₁
  exact ⟨reach₂, by simp only [Bind.bind, hp, hf]⟩

theorem bind_refuses (hp : p.Reads lexemes a mid) (hf : (f a).Refuses mid) :
    (p >>= f).Refuses lexemes := by
  intro reach
  obtain ⟨reach₁, hp⟩ := hp reach
  obtain ⟨reach₂, hf⟩ := hf reach₁
  exact ⟨reach₂, by simp only [Bind.bind, hp, hf]⟩

theorem named (h : p.Reads lexemes a rest) : (Rule.named p).Reads lexemes a rest := by
  intro reach
  obtain ⟨reach', hp⟩ := h reach
  exact ⟨reach', by simp only [Rule.named, hp]⟩

theorem mark (lexemes : List Lexeme) : Rule.mark.Reads lexemes () lexemes := fun _ => ⟨_, rfl⟩

theorem current (lexeme : Lexeme) (rest : List Lexeme) :
    Rule.current.Reads (lexeme :: rest) lexeme (lexeme :: rest) :=
  fun reach => ⟨reach, rfl⟩

theorem read {g : Token → Option α} (h : g lexeme.token = some a) :
    (Rule.read g).Reads (lexeme :: rest) a rest :=
  fun reach => ⟨reach, by simp only [Rule.read, h]⟩

theorem token (h : lexeme.token = t) : (Rule.token t).Reads (lexeme :: rest) () rest :=
  read (if_pos h)

theorem optional (h : p.Reads lexemes a rest) :
    (Rule.optional p).Reads lexemes (some a) rest := by
  intro reach
  obtain ⟨reach', hp⟩ := h reach
  exact ⟨reach', by simp only [Rule.optional, hp]⟩

theorem optional_none (h : p.Refuses lexemes) : (Rule.optional p).Reads lexemes none lexemes := by
  intro reach
  obtain ⟨reach', hp⟩ := h reach
  exact ⟨reach', by simp only [Rule.optional, hp]⟩

theorem orElse (h : p.Reads lexemes a rest) : (Rule.orElse p q).Reads lexemes a rest := by
  intro reach
  obtain ⟨reach', hp⟩ := h reach
  exact ⟨reach', by simp only [Rule.orElse, hp]⟩

/-- A repetition that nothing starts with reads nothing. -/
theorem repeated_nil (h : p.Refuses lexemes) : (Rule.repeated p most).Reads lexemes [] lexemes := by
  cases most with
  | zero => exact .pure [] lexemes
  | succ most => exact .bind (.optional_none h) (.pure [] lexemes)

theorem repeated_cons (h : p.Reads lexemes a mid)
    (hrest : (Rule.repeated p most).Reads mid as rest) :
    (Rule.repeated p (most + 1)).Reads lexemes (a :: as) rest :=
  .bind (.optional h) (.bind hrest (.pure (a :: as) rest))

theorem separated (h : p.Reads lexemes a mid)
    (hrest : (Rule.repeated (do symbol .comma; p) most).Reads mid as rest) :
    (Rule.separated most p).Reads lexemes (a :: as) rest :=
  .bind h (.bind hrest (.pure (a :: as) rest))

/-- A chain without an operator is its operand. -/
theorem leftChain {op : Rule (α → α → α)} (h : p.Reads lexemes a rest) (hop : op.Refuses rest) :
    (Rule.leftChain most p op).Reads lexemes a rest :=
  .bind h (.bind (.repeated_nil hop.bind) (.pure a rest))

theorem prefixChain {op : Rule (α → α)} (hop : op.Refuses lexemes) (h : p.Reads lexemes a rest) :
    (Rule.prefixChain most op p).Reads lexemes a rest :=
  .bind (.repeated_nil hop) (.bind h (.pure a rest))

/-- A chain with one prefix operator applies it to its operand. -/
theorem prefixChain_single {op : Rule (α → α)} {apply : α → α} (hmost : 1 ≤ most)
    (hop : op.Reads lexemes apply mid) (hmid : op.Refuses mid) (h : p.Reads mid a rest) :
    (Rule.prefixChain most op p).Reads lexemes (apply a) rest := by
  obtain ⟨more, rfl⟩ := Nat.exists_eq_add_of_le' hmost
  exact .bind (.repeated_cons hop (.repeated_nil hmid)) (.bind h (.pure (apply a) rest))

end Reads

theorem Refuses.prefixChain {op : Rule (α → α)} (hop : op.Refuses lexemes)
    (h : p.Refuses lexemes) : (Rule.prefixChain most op p).Refuses lexemes :=
  (Reads.repeated_nil hop).bind_refuses h.bind

end Linewise.Syntax.Rule
