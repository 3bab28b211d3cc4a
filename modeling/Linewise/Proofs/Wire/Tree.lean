import Linewise.Proofs.Wire.Literal

/-!
# JSON read back

A tree is read back from the text that it is written as (`Json.read?_render`), whatever its
strings hold and however deep it nests. Its numbers have to be such as are written without loss
(`Json.IsWritable`).
-/

namespace Linewise.Wire.Json

mutual

/-- All numbers of the tree that are written as integers have no exponent. -/
def IsWritable : Json → Prop
  | null | bool _ | string _ => True
  | number n => n.IsWritable
  | array items => WritableItems items
  | object members => WritableMembers members

/-- The items of an array are writable. -/
def WritableItems : List Json → Prop
  | [] => True
  | item :: rest => item.IsWritable ∧ WritableItems rest

/-- The members of an object are writable. -/
def WritableMembers : List (Option String × Json) → Prop
  | [] => True
  | (_, value) :: rest => value.IsWritable ∧ WritableMembers rest

end

theorem writableMembers_iff {members : List (Option String × Json)} :
    WritableMembers members ↔ ∀ member ∈ members, member.2.IsWritable := by
  induction members with
  | nil => simp [WritableMembers]
  | cons member rest ih => simp [WritableMembers, ih]

theorem skipSpaces_cons {c : Char} (h : isSpace c = false) (cs : List Char) :
    skipSpaces (c :: cs) = c :: cs := by
  rw [skipSpaces, List.dropWhile_cons_of_neg (by rw [h]; exact Bool.false_ne_true)]

theorem Closes.skipSpaces {rest : List Char} (h : Closes rest) : skipSpaces rest = rest := by
  cases rest with
  | nil => rfl
  | cons c rest =>
    refine skipSpaces_cons ?_ rest
    rcases h c rfl with rfl | rfl | rfl <;> rfl

/-- A number is written as a sign, its digits and an exponent. -/
theorem writeNumber_eq (n : JsonNumber) :
    writeNumber n =
      (if n.negative then ['-'] else []) ++ (Nat.toDigits 10 n.digits ++ writeExponent n) := by
  rw [writeNumber, List.append_assoc]
  rfl

theorem isSpace_of_isDigit {c : Char} (h : c.isDigit) : isSpace c = false := by
  cases hspace : isSpace c with
  | false => rfl
  | true =>
    simp only [isSpace, Bool.or_eq_true, decide_eq_true_eq] at hspace
    rcases hspace with ((rfl | rfl) | rfl) | rfl <;> cases h

/-- A tree starts with a character that is no blank and closes nothing. -/
theorem exists_write (json : Json) :
    ∃ c cs, json.write = c :: cs ∧ isSpace c = false ∧ c ≠ ']' := by
  cases json with
  | null => exact ⟨_, _, rfl, rfl, by decide⟩
  | bool b => cases b <;> exact ⟨_, _, rfl, rfl, by decide⟩
  | number n =>
    rw [write, writeNumber_eq]
    cases n.negative with
    | true => exact ⟨_, _, rfl, rfl, by decide⟩
    | false =>
      cases hdigits : Nat.toDigits 10 n.digits with
      | nil => exact absurd hdigits Nat.toDigits_ne_nil
      | cons d ds =>
        have hd : d.isDigit := isDigit_toDigits n.digits d (hdigits ▸ .head _)
        refine ⟨d, _, rfl, isSpace_of_isDigit hd, ?_⟩
        rintro rfl
        cases hd
  | string text => cases text <;> exact ⟨_, _, rfl, rfl, by decide⟩
  | array items => exact ⟨_, _, rfl, rfl, by decide⟩
  | object members => exact ⟨_, _, rfl, rfl, by decide⟩

/-- A number is read back as a tree. -/
theorem readTree?_writeNumber {n : JsonNumber} (hn : n.IsWritable) {rest : List Char}
    (h : Closes rest) (fuel : Nat) :
    readTree? (fuel + 1) (writeNumber n ++ rest) = some (number n, rest) := by
  have hread := readNumber?_append hn h
  rw [writeNumber_eq, List.append_assoc, List.append_assoc]
  cases hneg : n.negative with
  | true =>
    rw [hneg] at hread
    simp only [if_true, List.cons_append, List.nil_append, readTree?]
    rw [skipSpaces_cons rfl]
    simp [hread]
  | false =>
    rw [hneg] at hread
    cases hdigits : Nat.toDigits 10 n.digits with
    | nil => exact absurd hdigits Nat.toDigits_ne_nil
    | cons d ds =>
      have hd : d.isDigit := isDigit_toDigits n.digits d (hdigits ▸ .head _)
      rw [hdigits, List.cons_append] at hread
      simp only [Bool.false_eq_true, if_false, List.nil_append, List.cons_append]
      rw [readTree?, skipSpaces_cons (isSpace_of_isDigit hd)]
      split
      -- Nothing else that a tree can start with is a digit.
      iterate 7
        next heq => obtain ⟨rfl, -⟩ := List.cons.inj heq; cases hd
      next => rw [hread]; rfl

/-- A string is read back as a tree. -/
theorem readTree?_writeString (text : Option String) (rest : List Char) (fuel : Nat) :
    readTree? (fuel + 1) (writeString text ++ rest) = some (string text, rest) := by
  obtain ⟨cs, hwrite, hread⟩ := exists_writeString text
  rw [hwrite, List.cons_append, readTree?, skipSpaces_cons rfl]
  simp [hread]

/-- There is fuel for one more value as long as there is for what is written of it. -/
theorem exists_fuel (json : Json) {fuel : Nat} (h : 2 * json.write.length ≤ fuel) :
    ∃ k, fuel = k + 1 := by
  obtain ⟨c, cs, hwrite, -⟩ := exists_write json
  rw [hwrite, List.length_cons] at h
  exact Nat.exists_eq_add_one_of_ne_zero (by omega)

/-- The items of an array start with no blank and do not close it. -/
theorem exists_writeItems (item : Json) (items : List Json) :
    ∃ c cs, writeItems (item :: items) = c :: cs ∧ isSpace c = false ∧ c ≠ ']' := by
  obtain ⟨c, cs, hwrite, hspace, hclose⟩ := exists_write item
  cases items with
  | nil => exact ⟨c, cs ++ [']'], by rw [writeItems, hwrite]; rfl, hspace, hclose⟩
  | cons next items =>
    refine ⟨c, cs ++ ',' :: writeItems (next :: items), ?_, hspace, hclose⟩
    rw [writeItems, hwrite]
    · rfl
    · exact List.cons_ne_nil _ _

/-- The members of an object start with the quote of a name. -/
theorem exists_writeMembers (member : Option String × Json)
    (members : List (Option String × Json)) :
    ∃ cs, writeMembers (member :: members) = '"' :: cs := by
  obtain ⟨name, value⟩ := member
  obtain ⟨cs, hwrite, -⟩ := exists_writeString name
  cases members with
  | nil => exact ⟨_, by rw [writeMembers, hwrite]; rfl⟩
  | cons next members => exact ⟨_, by rw [writeMembers, hwrite]; rfl; exact nofun⟩

theorem writeItems_cons (item next : Json) (items : List Json) :
    writeItems (item :: next :: items) = item.write ++ ',' :: writeItems (next :: items) :=
  rfl

theorem writeMembers_singleton (name : Option String) (value : Json) :
    writeMembers [(name, value)] = writeString name ++ ':' :: (value.write ++ ['\x7d']) := by
  rw [writeMembers, List.append_assoc]
  rfl

theorem writeMembers_cons (name : Option String) (value : Json) (next : Option String × Json)
    (members : List (Option String × Json)) :
    writeMembers ((name, value) :: next :: members) =
      writeString name ++ ':' :: (value.write ++ ',' :: writeMembers (next :: members)) := by
  rw [writeMembers, List.append_assoc]
  · rfl
  · exact nofun

section Rules

variable {fuel : Nat} {cs cs' rest : List Char} {item : Json} {items : List Json}
  {name : Option String} {value : Json} {members : List (Option String × Json)}

/-- A list is read from its items. -/
theorem readTree?_array (hcs : ∃ c cs', cs = c :: cs' ∧ isSpace c = false ∧ c ≠ ']')
    (h : readItems? fuel cs = some (items, rest)) :
    readTree? (fuel + 1) ('[' :: cs) = some (array items, rest) := by
  obtain ⟨c, cs', rfl, hspace, hclose⟩ := hcs
  rw [readTree?, skipSpaces_cons rfl]
  simp only [skipSpaces_cons hspace]
  split
  next heq => exact absurd (List.cons.inj heq).1 hclose
  next => rw [h]; rfl

/-- An object is read from its members. -/
theorem readTree?_object (hcs : ∃ cs', cs = '"' :: cs')
    (h : readMembers? fuel cs = some (members, rest)) :
    readTree? (fuel + 1) ('\x7b' :: cs) = some (object members, rest) := by
  obtain ⟨cs', rfl⟩ := hcs
  rw [readTree?, skipSpaces_cons rfl]
  simp only [skipSpaces_cons (c := '"') rfl]
  change Option.map _ (readMembers? fuel ('"' :: cs')) = _
  rw [h]
  rfl

theorem readItems?_last (h : readTree? fuel cs = some (item, ']' :: rest)) :
    readItems? (fuel + 1) cs = some ([item], rest) := by
  rw [readItems?, h]
  rfl

/-- An item with a comma behind it is read before the others. -/
theorem readItems?_more (h : readTree? fuel cs = some (item, ',' :: cs'))
    (hmore : readItems? fuel cs' = some (items, rest)) :
    readItems? (fuel + 1) cs = some (item :: items, rest) := by
  rw [readItems?, h]
  simp [skipSpaces_cons (c := ',') rfl, hmore]

/-- The last member is read with the brace behind it. -/
theorem readMembers?_last (h : readTree? fuel cs = some (value, '\x7d' :: rest)) :
    readMembers? (fuel + 1) (writeString name ++ ':' :: cs) = some ([(name, value)], rest) := by
  obtain ⟨text, hwrite, hread⟩ := exists_writeString name
  rw [hwrite, List.cons_append, readMembers?, skipSpaces_cons rfl]
  simp [hread, skipSpaces_cons (c := ':') rfl, skipSpaces_cons (c := '\x7d') rfl, h]

/-- A member with a comma behind it is read before the others. -/
theorem readMembers?_more (h : readTree? fuel cs = some (value, ',' :: cs'))
    (hmore : readMembers? fuel cs' = some (members, rest)) :
    readMembers? (fuel + 1) (writeString name ++ ':' :: cs) =
      some ((name, value) :: members, rest) := by
  obtain ⟨text, hwrite, hread⟩ := exists_writeString name
  rw [hwrite, List.cons_append, readMembers?, skipSpaces_cons rfl]
  simp [hread, skipSpaces_cons (c := ':') rfl, skipSpaces_cons (c := ',') rfl, h, hmore]

end Rules

mutual

/-- A tree is read back in front of what closes it. Every character is fuel for two readings. -/
theorem readTree?_write : (json : Json) → json.IsWritable → ∀ {rest : List Char}, Closes rest →
    ∀ {fuel : Nat}, 2 * json.write.length ≤ fuel →
      readTree? fuel (json.write ++ rest) = some (json, rest)
  | .null, _, _, _, fuel + 1, _ => rfl
  | .bool true, _, _, _, fuel + 1, _ => rfl
  | .bool false, _, _, _, fuel + 1, _ => rfl
  | .number n, hn, rest, h, fuel, hfuel => by
    obtain ⟨fuel, rfl⟩ := exists_fuel (.number n) hfuel
    exact readTree?_writeNumber hn h fuel
  | .string text, _, rest, _, fuel, hfuel => by
    obtain ⟨fuel, rfl⟩ := exists_fuel (.string text) hfuel
    exact readTree?_writeString text rest fuel
  | .array [], _, rest, _, fuel + 1, _ => rfl
  | .array (item :: items), hitems, rest, _, fuel, hfuel => by
    rw [write, List.length_cons] at hfuel
    obtain ⟨fuel, rfl⟩ := Nat.exists_eq_add_one_of_ne_zero (by omega : fuel ≠ 0)
    -- The opening bracket is fuel for the array itself, and the rest is left for its items.
    have hread := readItems?_writeItems (item :: items) (List.cons_ne_nil _ _) hitems rest
      (by omega : _ ≤ fuel)
    obtain ⟨c, cs, hwrite, hstart⟩ := exists_writeItems item items
    exact readTree?_array ⟨c, cs ++ rest, by rw [hwrite]; rfl, hstart⟩ hread
  | .object [], _, rest, _, fuel + 1, _ => rfl
  | .object (member :: members), hmembers, rest, _, fuel, hfuel => by
    rw [write, List.length_cons] at hfuel
    obtain ⟨fuel, rfl⟩ := Nat.exists_eq_add_one_of_ne_zero (by omega : fuel ≠ 0)
    have hread := readMembers?_writeMembers (member :: members) (List.cons_ne_nil _ _) hmembers rest
      (by omega : _ ≤ fuel)
    obtain ⟨cs, hwrite⟩ := exists_writeMembers member members
    exact readTree?_object ⟨cs ++ rest, by rw [hwrite]; rfl⟩ hread

/-- The items of an array are read back through its closing bracket. -/
theorem readItems?_writeItems : (items : List Json) → items ≠ [] → WritableItems items →
    ∀ (rest : List Char) {fuel : Nat}, 2 * (writeItems items).length ≤ fuel →
      readItems? fuel (writeItems items ++ rest) = some (items, rest)
  | [item], _, hitems, rest, fuel, hfuel => by
    rw [writeItems, List.length_append, List.length_singleton] at hfuel
    obtain ⟨fuel, rfl⟩ := Nat.exists_eq_add_one_of_ne_zero (by omega : fuel ≠ 0)
    rw [writeItems, List.append_assoc]
    exact readItems?_last (readTree?_write item hitems.1 (by simp [Closes]) (by omega))
  | item :: next :: items, _, hitems, rest, fuel, hfuel => by
    rw [writeItems_cons, List.length_append, List.length_cons] at hfuel
    obtain ⟨fuel, rfl⟩ := Nat.exists_eq_add_one_of_ne_zero (by omega : fuel ≠ 0)
    rw [writeItems_cons, List.append_assoc]
    exact readItems?_more (readTree?_write item hitems.1 (by simp [Closes]) (by omega))
      (readItems?_writeItems (next :: items) (List.cons_ne_nil _ _) hitems.2 rest (by omega))

/-- The members of an object are read back through its closing brace. -/
theorem readMembers?_writeMembers : (members : List (Option String × Json)) → members ≠ [] →
    WritableMembers members → ∀ (rest : List Char) {fuel : Nat},
      2 * (writeMembers members).length ≤ fuel →
        readMembers? fuel (writeMembers members ++ rest) = some (members, rest)
  | [(name, value)], _, hmembers, rest, fuel, hfuel => by
    simp only [writeMembers_singleton, List.length_append, List.length_cons] at hfuel
    obtain ⟨fuel, rfl⟩ := Nat.exists_eq_add_one_of_ne_zero (by omega : fuel ≠ 0)
    rw [writeMembers_singleton, List.append_assoc, List.cons_append, List.append_assoc]
    exact readMembers?_last (readTree?_write value hmembers.1 (by simp [Closes]) (by omega))
  | (name, value) :: next :: members, _, hmembers, rest, fuel, hfuel => by
    simp only [writeMembers_cons, List.length_append, List.length_cons] at hfuel
    obtain ⟨fuel, rfl⟩ := Nat.exists_eq_add_one_of_ne_zero (by omega : fuel ≠ 0)
    rw [writeMembers_cons, List.append_assoc, List.cons_append, List.append_assoc]
    exact readMembers?_more (readTree?_write value hmembers.1 (by simp [Closes]) (by omega))
      (readMembers?_writeMembers (next :: members) (List.cons_ne_nil _ _) hmembers.2 rest
        (by omega))

end

/-- A tree is read back from its text. -/
theorem read?_render {json : Json} (h : json.IsWritable) : read? json.render = some json := by
  have hread := readTree?_write json h closes_nil (Nat.le_add_right (2 * json.write.length) 2)
  rw [List.append_nil] at hread
  simp only [read?, render, String.toList_ofList, hread]
  rfl

end Linewise.Wire.Json
