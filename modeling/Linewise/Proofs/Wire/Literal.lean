import Linewise.Wire.Reader

/-!
# Literals of JSON

The two kinds of trees without parts of their own are read back from what they are written as: a
string from its escapes (`Json.exists_writeString`), and a number from its digits
(`Json.readNumber?_append`). A string is delimited by its quotes. The end of a number only shows
in what follows it, which has to close a tree (`Json.Closes`).
-/

namespace Linewise.Wire

/-- A number that is written as an integer has no exponent. -/
def JsonNumber.IsWritable (n : JsonNumber) : Prop := n.integral → n.exponent = 0

namespace Json

/-! ## Strings -/

theorem hexValue?_hexDigit : ∀ n < 16, hexValue? (hexDigit n) = some n := by decide

/-- A control character is read back from the four digits of its number. -/
theorem hex4?_hexDigit {n : Nat} (h : n < 32) :
    hex4? '0' '0' (hexDigit (n / 16)) (hexDigit (n % 16)) = some n := by
  have hzero : hexValue? '0' = some 0 := rfl
  have hhigh := hexValue?_hexDigit (n / 16) (by omega)
  have hlow := hexValue?_hexDigit (n % 16) (by omega)
  simp only [hex4?, hzero, hhigh, hlow, bind, pure, Option.bind_some]
  congr 1
  omega

/-- A short escape is read as the character that it stands for. -/
theorem pieces?_backslash {c e : Char} (h : unescape? e = some c) (cs : List Char) :
    pieces? ('\\' :: e :: cs) = (pieces? cs).map fun (ps, rest) => (.char c :: ps, rest) := by
  have hu : e ≠ 'u' := by
    rintro rfl
    cases h
  rw [pieces?.eq_4 e cs fun _ _ _ _ _ heq _ => hu heq, h]
  cases pieces? cs <;> rfl

/-- A character that is not written as an escape is read as itself. -/
theorem pieces?_char {c : Char} (hquote : c ≠ '"') (hslash : c ≠ '\\') (h : ¬c.toNat < 32)
    (cs : List Char) :
    pieces? (c :: cs) = (pieces? cs).map fun (ps, rest) => (.char c :: ps, rest) := by
  rw [pieces?.eq_5 c cs hquote (fun _ _ _ _ _ heq _ => hslash heq) fun _ _ heq _ => hslash heq]
  simp only [h, hslash, decide_false, Bool.or_false, Bool.false_eq_true, if_false]
  cases pieces? cs <;> rfl

/-- A character is written as a short escape that stands for it, as the digits of its number, or
    as itself. -/
theorem escape_cases (c : Char) :
    (∃ e, escape c = ['\\', e] ∧ unescape? e = some c) ∨
      (escape c = ['\\', 'u', '0', '0', hexDigit (c.toNat / 16), hexDigit (c.toNat % 16)] ∧
        c.toNat < 32) ∨
      escape c = [c] ∧ c ≠ '"' ∧ c ≠ '\\' ∧ ¬c.toNat < 32 := by
  by_cases hshort : c ∈ ['"', '\\', '\x08', '\x0c', '\n', '\r', '\t']
  · left
    simp only [List.mem_cons, List.not_mem_nil, or_false] at hshort
    rcases hshort with rfl | rfl | rfl | rfl | rfl | rfl | rfl <;> exact ⟨_, rfl, rfl⟩
  · right
    simp only [List.mem_cons, List.not_mem_nil, or_false, not_or] at hshort
    by_cases hlt : c.toNat < 32
    · left
      simp [escape, hshort, hlt]
    · right
      simp [escape, hshort, hlt]

/-- What a character is written as is read as one part, which stands for it. -/
theorem exists_piece (c : Char) : ∃ p : Piece,
    (∀ cs, pieces? (escape c ++ cs) = (pieces? cs).map fun (ps, rest) => (p :: ps, rest)) ∧
      ∀ ps, join? (p :: ps) = (join? ps).map (c :: ·) := by
  rcases escape_cases c with ⟨e, hescape, he⟩ | ⟨hescape, hlt⟩ | ⟨hescape, hquote, hslash, hge⟩
  · rw [hescape]
    exact ⟨.char c, pieces?_backslash he, fun _ => rfl⟩
  · refine ⟨.unit c.toNat, fun cs => ?_, fun ps => ?_⟩
    · rw [hescape]
      simp only [List.cons_append, List.nil_append, pieces?, hex4?_hexDigit hlt]
      cases pieces? cs <;> rfl
    · -- The number of a control character is no half of a surrogate pair.
      conv => lhs; unfold join?
      rw [if_neg (by simp; omega), if_neg (by simp; omega), Char.ofNat_toNat]
  · rw [hescape]
    exact ⟨.char c, pieces?_char hquote hslash hge, fun _ => rfl⟩

/-- What the characters of a text are written as is read up to the quote after it. -/
theorem exists_pieces (cs rest : List Char) :
    ∃ ps, pieces? (cs.flatMap escape ++ '"' :: rest) = some (ps, rest) ∧ join? ps = some cs := by
  induction cs with
  | nil => exact ⟨[], rfl, rfl⟩
  | cons c cs ih =>
    obtain ⟨ps, hread, hjoin⟩ := ih
    obtain ⟨p, hpiece, hp⟩ := exists_piece c
    refine ⟨p :: ps, ?_, ?_⟩
    · rw [List.flatMap_cons, List.append_assoc, hpiece, hread]
      rfl
    · rw [hp, hjoin]
      rfl

/-- A string is written as a quote and what is read back as the string. -/
theorem exists_writeString (text : Option String) : ∃ cs, writeString text = '"' :: cs ∧
    ∀ rest, readString? (cs ++ rest) = some (text, rest) := by
  cases text with
  | none => exact ⟨['\\', 'u', 'd', '8', '0', '0', '"'], rfl, fun rest => rfl⟩
  | some s =>
    refine ⟨_, rfl, fun rest => ?_⟩
    obtain ⟨ps, hread, hjoin⟩ := exists_pieces s.toList rest
    simp only [readString?, List.append_assoc, List.cons_append, List.nil_append, hread]
    simp [hjoin]

/-! ## Numbers -/

/-- What may follow a tree: nothing, another part of the tree around it or its closing bracket. -/
def Closes (rest : List Char) : Prop :=
  ∀ c ∈ rest.head?, c = ',' ∨ c = ']' ∨ c = '\x7d'

/-- The next character of a text, if there is one, is no digit. -/
def Stops (rest : List Char) : Prop := ∀ c ∈ rest.head?, c.isDigit = false

theorem closes_nil : Closes [] := nofun

theorem Closes.stops {rest : List Char} (h : Closes rest) : Stops rest := by
  intro c hc
  rcases h c hc with rfl | rfl | rfl <;> rfl

/-- Digits are read up to what is none. -/
theorem digits?_append {ds rest : List Char} (hne : ds ≠ []) (hds : ∀ c ∈ ds, c.isDigit)
    (hrest : Stops rest) : digits? (ds ++ rest) = some (ds, rest) := by
  have hstop : rest.takeWhile Char.isDigit = [] ∧ rest.dropWhile Char.isDigit = rest := by
    cases rest with
    | nil => exact ⟨rfl, rfl⟩
    | cons c rest => simp [hrest c rfl]
  rw [digits?, List.takeWhile_append_of_pos hds, List.dropWhile_append_of_pos hds, hstop.1,
    hstop.2, List.append_nil]
  cases ds with
  | nil => exact absurd rfl hne
  | cons d ds => rfl

theorem isDigit_toDigits (n : Nat) : ∀ c ∈ Nat.toDigits 10 n, c.isDigit := fun _ hc =>
  Nat.isDigit_of_mem_toDigits (by decide) (by decide) hc

theorem digits?_toDigits (n : Nat) {rest : List Char} (h : Stops rest) :
    digits? (Nat.toDigits 10 n ++ rest) = some (Nat.toDigits 10 n, rest) :=
  digits?_append Nat.toDigits_ne_nil (isDigit_toDigits n) h

/-- The digits of a number spell it. -/
theorem value_toDigits (n : Nat) : Numeral.value (Nat.toDigits 10 n) = n :=
  Nat.ofDigitChars_ten_toDigits

/-- Only zero is written with a zero in front. -/
theorem toDigits_ne_zero_cons {n : Nat} (h : n ≠ 0) (rest : List Char) :
    Nat.toDigits 10 n ≠ '0' :: rest := by
  intro heq
  have hhead : (Nat.toDigits 10 n).head? = some '0' := congrArg List.head? heq
  clear heq
  induction n using Nat.base_induction 10 (by decide) with
  | single m hm =>
    rw [Nat.toDigits_of_lt_base hm] at hhead
    revert m
    decide
  | digit m k hk hm ih =>
    refine ih (Nat.ne_of_gt hm) ?_
    -- The first digit is that of the number without its last digit, which is not zero either.
    rw [← Nat.toDigits_append_toDigits (by decide) hm hk, List.head?_append] at hhead
    cases hdigits : Nat.toDigits 10 m with
    | nil => exact absurd hdigits Nat.toDigits_ne_nil
    | cons d ds => simpa [hdigits] using hhead

/-- The digits of a number are read as its integral part: they do not begin with a needless zero. -/
theorem whole?_toDigits (n : Nat) {rest : List Char} (h : Stops rest) :
    whole? (Nat.toDigits 10 n ++ rest) = some (Nat.toDigits 10 n, rest) := by
  by_cases hn : n = 0
  · subst hn
    rfl
  · rw [whole?.eq_2, digits?_toDigits n h]
    intro tail heq
    cases hdigits : Nat.toDigits 10 n with
    | nil => exact absurd hdigits Nat.toDigits_ne_nil
    | cons d ds =>
      rw [hdigits] at heq
      cases heq
      exact toDigits_ne_zero_cons hn ds hdigits

/-- The exponent of a number, which follows unless the number was written as an integer. -/
def writeExponent (n : JsonNumber) : List Char :=
  if n.integral then []
  else 'e' :: ((if n.exponent < 0 then ['-'] else []) ++ Nat.toDigits 10 n.exponent.natAbs)

/-- What follows the digits of a number is no digit. -/
theorem stops_writeExponent (n : JsonNumber) {rest : List Char} (h : Closes rest) :
    Stops (writeExponent n ++ rest) := by
  rw [writeExponent]
  split
  · exact h.stops
  · rintro c ⟨⟩
    rfl

/-- A number is written without a point, so no places are read. -/
theorem places?_writeExponent (n : JsonNumber) {rest : List Char} (h : Closes rest) :
    places? (writeExponent n ++ rest) = some ([], writeExponent n ++ rest) := by
  refine places?.eq_2 _ fun tail heq => ?_
  rw [writeExponent] at heq
  split at heq
  · rcases h '.' (by rw [← List.nil_append rest, heq]; rfl) with h | h | h <;> cases h
  · cases heq

/-- An exponent without a sign is one that is not negative. -/
theorem exponent?_toDigits (m : Nat) {rest : List Char} (h : Stops rest) :
    exponent? ('e' :: (Nat.toDigits 10 m ++ rest)) = some (some (m : Int), rest) := by
  have hread := digits?_toDigits m h
  have hvalue := value_toDigits m
  have hdigits := isDigit_toDigits m
  cases hm : Nat.toDigits 10 m with
  | nil => exact absurd hm Nat.toDigits_ne_nil
  | cons d ds =>
    rw [hm] at hread hvalue hdigits
    have hd : d.isDigit := hdigits d (.head _)
    rw [List.cons_append] at hread ⊢
    simp only [exponent?, decide_true, Bool.true_or, if_true]
    split
    next heq => cases heq; cases hd
    next heq => cases heq; cases hd
    next => rw [hread, Option.map_some, hvalue]

/-- The exponent that is written of a number is read back, and none of an integral one. -/
theorem exponent?_writeExponent (n : JsonNumber) {rest : List Char} (h : Closes rest) :
    exponent? (writeExponent n ++ rest) =
      some (if n.integral then none else some n.exponent, rest) := by
  rw [writeExponent]
  cases hintegral : n.integral with
  | true =>
    -- What may follow a number does not look like an exponent.
    cases rest with
    | nil => rfl
    | cons c rest => rcases h c rfl with rfl | rfl | rfl <;> rfl
  | false =>
    simp only [Bool.false_eq_true, if_false]
    by_cases hneg : n.exponent < 0
    · -- What is written after the sign is the exponent without it.
      have hvalue : -(n.exponent.natAbs : Int) = n.exponent := by omega
      rw [if_pos hneg]
      simp only [exponent?, decide_true, Bool.true_or, if_true, List.cons_append, List.nil_append,
        digits?_toDigits _ h.stops, Option.map_some, value_toDigits, hvalue]
    · have hvalue : (n.exponent.natAbs : Int) = n.exponent := by omega
      rw [if_neg hneg, List.nil_append, List.cons_append, exponent?_toDigits _ h.stops, hvalue]

/-- The digits and the exponent of a number are read up to what closes a tree. -/
theorem readNumber?_append {n : JsonNumber} (hn : n.IsWritable) {rest : List Char}
    (h : Closes rest) :
    readNumber? n.negative (Nat.toDigits 10 n.digits ++ (writeExponent n ++ rest)) =
      some (n, rest) := by
  simp only [readNumber?, bind, Option.bind_some, whole?_toDigits _ (stops_writeExponent n h),
    places?_writeExponent n h, exponent?_writeExponent n h, List.append_nil, value_toDigits]
  obtain ⟨negative, digits, exponent, integral⟩ := n
  cases integral with
  | true =>
    have hexponent : exponent = 0 := hn rfl
    rw [hexponent]
    rfl
  | false => simp

end Json

end Linewise.Wire
