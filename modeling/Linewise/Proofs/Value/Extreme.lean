import Linewise.Builtin.Call
import Linewise.Proofs.Value.Order

/-!
# First extreme values

The least or the greatest of some values is picked by going through them once, with the best one so
far. A later value takes its place only if it is strictly better, and is compared with nothing else.
That is enough for plain values, as their order is transitive: what was worse than an earlier best
one is worse than all that have come after it, and has an order to them. So in the end every other
candidate has an order to the picked one and is not better, and those before it are worse
(`Value.Leads`, `Builtin.call_extreme`).
-/

namespace Linewise

namespace Value

variable {φ : Type} [FunctionHandle φ] {u v w best candidate : Value φ}
  {seen rest items args : List (Value φ)} {extreme : Extreme}

/-- The first extreme one of some values: all before it are worse, and those after it have an order
    to it and are not better. -/
def Leads (extreme : Extreme) (items : List (Value φ)) (v : Value φ) : Prop :=
  ∃ before after, items = before ++ v :: after ∧
    (∀ c ∈ before, compare c v = some extreme.order.swap) ∧
    ∀ c ∈ after, ∃ order, compare c v = some order ∧ order ≠ extreme.order

/-- A leader is one of the items. -/
theorem Leads.mem (h : Leads extreme items v) : v ∈ items := by
  obtain ⟨before, after, rfl, -, -⟩ := h
  exact List.mem_append_right _ List.mem_cons_self

/-- What is not equal and not better is worse. -/
theorem Extreme.swap_eq_order {order : Ordering} (hequal : order ≠ .eq)
    (hbetter : order ≠ extreme.order) : order.swap = extreme.order := by
  cases extreme <;> cases order <;> simp_all [Extreme.order]

namespace IsPlain

/-- Being better is transitive, whichever values are the better ones. -/
theorem better_trans (hu : u.IsPlain) (hv : v.IsPlain) (hw : w.IsPlain)
    (huv : compare u v = some extreme.order) (hvw : compare v w = some extreme.order) :
    compare u w = some extreme.order := by
  cases extreme with
  | least => exact hu.compare_trans hv hw huv hvw
  | greatest =>
    have hvu : compare v u = some .lt := by rw [hu.compare_swap hv, huv]; rfl
    have hwv : compare w v = some .lt := by rw [hv.compare_swap hw, hvw]; rfl
    rw [hw.compare_swap hu, hw.compare_trans hv hu hwv hvu]
    rfl

/-- What is no better than a value is worse than a better one. -/
theorem worse_of_better {order : Ordering} (hu : u.IsPlain) (hv : v.IsPlain) (hw : w.IsPlain)
    (hwv : compare w v = some extreme.order) (huv : compare u v = some order)
    (horder : order ≠ extreme.order) : compare u w = some extreme.order.swap := by
  have hvw : compare v w = some extreme.order.swap := by rw [hw.compare_swap hv, hwv]; rfl
  by_cases heq : order = .eq
  · rw [hu.compare_congr hv hw (hu.equal_of_compare hv (heq ▸ huv)), hvw]
  · have hvu : compare v u = some extreme.order := by
      rw [hu.compare_swap hv, huv, Option.map_some, Extreme.swap_eq_order heq horder]
    rw [hw.compare_swap hu, hw.better_trans hv hu hwv hvu]
    rfl

end IsPlain

/-! ## Going through the candidates -/

/-- The better one of the first extreme one so far and the next candidate is the first extreme one
    of all of them. -/
theorem Leads.better (h : Leads extreme seen best) (hseen : ∀ c ∈ seen, c.IsPlain)
    (hcandidate : candidate.IsPlain) (hbetter : better extreme best candidate = .ok v) :
    Leads extreme (seen ++ [candidate]) v := by
  have hbest := hseen best h.mem
  obtain ⟨before, after, rfl, hbefore, hafter⟩ := h
  rw [Value.better] at hbetter
  split at hbetter
  next order hcompare =>
    cases hbetter
    split
    next hwins =>
      subst hwins
      -- All candidates so far are no better than the best one was.
      refine ⟨before ++ best :: after, [], rfl, fun c hc => ?_, List.forall_mem_nil _⟩
      have hc' := hseen c hc
      rcases List.mem_append.1 hc with hc | hc
      · exact hc'.worse_of_better hbest hcandidate hcompare (hbefore c hc)
          (by cases extreme <;> decide)
      · rcases List.mem_cons.1 hc with rfl | hc
        · rw [hcandidate.compare_swap hc', hcompare]
          rfl
        · obtain ⟨order, horder, hne⟩ := hafter c hc
          exact hc'.worse_of_better hbest hcandidate hcompare horder hne
    next hloses =>
      refine ⟨before, after ++ [candidate], by simp, hbefore, fun c hc => ?_⟩
      rcases List.mem_append.1 hc with hc | hc
      · exact hafter c hc
      · obtain rfl := List.mem_singleton.1 hc
        exact ⟨order, hcompare, hloses⟩
  next => cases hbetter

/-- The pick among more candidates leads them all if the best one so far leads those before. -/
theorem Leads.foldlM (h : Leads extreme seen best) (hplain : ∀ c ∈ seen ++ rest, c.IsPlain)
    (hpicked : rest.foldlM (Value.better extreme) best = .ok v) :
    Leads extreme (seen ++ rest) v := by
  induction rest generalizing seen best with
  | nil =>
    cases hpicked
    rwa [List.append_nil]
  | cons candidate rest ih =>
    obtain ⟨hseen, hrest⟩ := List.forall_mem_append.1 hplain
    rw [List.foldlM_cons] at hpicked
    cases hbetter : Value.better extreme best candidate with
    | error cause =>
      rw [hbetter] at hpicked
      cases hpicked
    | ok next =>
      rw [hbetter] at hpicked
      have hnext := h.better hseen (hrest candidate List.mem_cons_self) hbetter
      rw [List.append_cons] at hplain ⊢
      exact ih hnext hplain hpicked

/-- One of some values that have an order to each other is found. -/
theorem exists_foldlM_better (hbest : best ∈ seen)
    (hordered : (seen ++ rest).Pairwise fun c d => compare d c ≠ Option.none) :
    ∃ v, rest.foldlM (Value.better extreme) best = .ok v := by
  induction rest generalizing seen best with
  | nil => exact ⟨best, rfl⟩
  | cons candidate rest ih =>
    obtain ⟨-, -, hacross⟩ := List.pairwise_append.1 hordered
    obtain ⟨order, horder⟩ :=
      Option.ne_none_iff_exists'.1 (hacross best hbest candidate List.mem_cons_self)
    rw [List.append_cons] at hordered
    rw [List.foldlM_cons, Value.better, horder]
    refine ih ?_ hordered
    split
    · exact List.mem_append_right _ List.mem_cons_self
    · exact List.mem_append_left _ hbest

/-- No candidate is better than the first extreme one, all have an order to it, and none before it
    is equal to it. -/
theorem Leads.exists_append (h : Leads extreme items v) (hplain : ∀ c ∈ items, c.IsPlain) :
    ∃ before after, items = before ++ v :: after ∧
      (∀ c ∈ before ++ after, ∃ order, compare c v = some order ∧ order ≠ extreme.order) ∧
      ∀ c ∈ before, equal c v = false := by
  have hv := hplain v h.mem
  obtain ⟨before, after, rfl, hbefore, hafter⟩ := h
  refine ⟨before, after, rfl, fun c hc => ?_, fun c hc => Bool.eq_false_iff.2 fun hequal => ?_⟩
  · rcases List.mem_append.1 hc with hc | hc
    · exact ⟨_, hbefore c hc, by cases extreme <;> nofun⟩
    · exact hafter c hc
  · have hc' := hplain c (List.mem_append_left _ hc)
    have heq := hc'.eq_of_compare_of_equal hv hequal (hbefore c hc)
    cases extreme <;> cases heq

/-- Candidates that have an order in one direction have one in the other. -/
theorem pairwise_ordered (hplain : ∀ c ∈ items, c.IsPlain)
    (hordered : items.Pairwise fun c d => compare c d ≠ Option.none) :
    items.Pairwise fun c d => compare d c ≠ Option.none := by
  refine hordered.imp_of_mem fun {c d} hc hd hcd => ?_
  rw [(hplain c hc).compare_swap (hplain d hd)]
  exact fun hnone => hcd (Option.map_eq_none_iff.1 hnone)

end Value

namespace Builtin

variable {φ : Type} {args items : List (Value φ)}

/-- The candidates are the items of a list that is the only argument, else all arguments. -/
theorem candidates_eq (hargs : args = [.list items] ∨ args = items ∧ 2 ≤ items.length) :
    Value.candidates args = .ok items := by
  rcases hargs with rfl | ⟨rfl, hlength⟩
  · rfl
  · match args, hlength with
    | _ :: _ :: _, _ => simp [Value.candidates]

variable [FunctionHandle φ]

/-- A call of `min` or of `max` with some candidates goes through them, and prints nothing. -/
theorem call_eq_foldlM (extreme : Value.Extreme) {first : Value φ} {rest : List (Value φ)}
    (hcandidates : Value.candidates args = .ok (first :: rest)) :
    call extreme.builtin args =
      (rest.foldlM (Value.better extreme) first).map fun v => ⟨v, none⟩ := by
  have hpick : Value.pick extreme args = rest.foldlM (Value.better extreme) first := by
    rw [Value.pick, hcandidates]
    rfl
  rw [← hpick]
  cases extreme
  · change value .min args >>= _ = (value .min args).map _
    cases value .min args <;> rfl
  · change value .max args >>= _ = (value .max args).map _
    cases value .max args <;> rfl

/-- The least and the greatest value are the first extreme ones. The candidates of a call are the
    items of a list that is the only argument, or several arguments, and let them be plain. When the
    call gives a value, this is one of them, all others have an order to it and are not better, and
    none before it is equal to it. The call does give a value when every two candidates have an
    order. -/
theorem call_extreme (extreme : Value.Extreme)
    (hargs : args = [.list items] ∨ args = items ∧ 2 ≤ items.length) (hne : items ≠ [])
    (hplain : ∀ c ∈ items, c.IsPlain) :
    (∀ reply, call extreme.builtin args = .ok reply → ∃ before after,
      items = before ++ reply.value :: after ∧
      (∀ c ∈ before ++ after, ∃ order,
        c.compare reply.value = some order ∧ order ≠ extreme.order) ∧
      ∀ c ∈ before, c.equal reply.value = false) ∧
    (items.Pairwise (fun c d => c.compare d ≠ none) →
      ∃ reply, call extreme.builtin args = .ok reply) := by
  obtain ⟨first, rest, rfl⟩ := List.exists_cons_of_ne_nil hne
  -- The first item leads at the start, and each comparison keeps a leader.
  have hfirst : Value.Leads extreme [first] first := ⟨[], [], rfl, nofun, nofun⟩
  rw [call_eq_foldlM extreme (candidates_eq hargs)]
  constructor
  · intro reply hreply
    cases hpicked : rest.foldlM (Value.better extreme) first with
    | error cause =>
      rw [hpicked] at hreply
      cases hreply
    | ok v =>
      rw [hpicked] at hreply
      cases hreply
      exact (hfirst.foldlM hplain hpicked).exists_append hplain
  · intro hordered
    obtain ⟨v, hv⟩ : ∃ v, rest.foldlM (Value.better extreme) first = .ok v :=
      Value.exists_foldlM_better hfirst.mem (Value.pairwise_ordered hplain hordered)
    exact ⟨⟨v, none⟩, by rw [hv]; rfl⟩

/-- Of three lists, two of them equal, the first greatest one is picked, although their first items
    have no order. -/
theorem call_extreme_max : ∃ items : List (Value Code), ∃ before after v,
    items = [.list [.none, .int 1], .list [.none, .int 2], .list [.none, .int 2]] ∧
    call .max [.list items] = .ok ⟨v, none⟩ ∧ items = before ++ v :: after ∧
    (∀ c ∈ before ++ after, ∃ order, c.compare v = some order ∧ order ≠ .gt) ∧
    ∀ c ∈ before, c.equal v = false := by
  have hplain : ∀ c ∈ [Value.list [.none, .int 1], .list [.none, .int 2], .list [.none, .int 2]],
      (c : Value Code).IsPlain := by
    simp [Value.IsPlain.list, Value.IsPlain.none, Value.IsPlain.int]
  obtain ⟨hpicks, hgives⟩ := call_extreme .greatest (.inl rfl) (by simp) hplain
  obtain ⟨⟨v, printed⟩, hreply⟩ := hgives (by decide)
  obtain ⟨before, after, hitems, hother, hbefore⟩ := hpicks _ hreply
  obtain ⟨rfl⟩ : printed = none := by cases hreply; rfl
  exact ⟨_, before, after, v, rfl, hreply, hitems, hother, hbefore⟩

end Builtin

end Linewise
