/-
CursorTree.Proofs.ValueLists — values written as JSON are read back.

A value is written as a number or as a string, and which of the two it was
is recovered from the text alone.  A numeral is a spelling of a number and
an escaped name a spelling of a string, so reading an element gives the
value that was written (`readWithin_json`); what is left is the commas
between the elements.  Behind an element there is a comma or the bracket,
so a numeral ends where it should.

The texts of two lists differ unless the lists are the same, since both are
read back from them.
-/
import CursorTree.Proofs.Spelling
import CursorTree.Value.Json

namespace CursorTree.Value

open CursorTree.Json

/-! ## 1. One value -/

/-- What a value is in JSON. -/
def item : Value → Item
  | id n => .number (.natural n)
  | name s => .text s

theorem ofItem?_item (v : Value) : ofItem? v.item = some v := by
  cases v <;> rfl

/-- A value is written as the number or the string that it is in JSON. -/
theorem readItem_json (v : Value) {rest : List Char} (hrest : Delimited rest) :
    readItem (v.json ++ rest) = .ok (v.item, rest) := by
  have hblanks : Blanks [] := by decide
  cases v with
  | id n => exact readItem_numeral n hblanks hrest
  | name s =>
    have hjson : (name s).json ++ rest = [] ++ '"' :: (s.toList.flatMap escape ++ '"' :: rest) := by
      rw [json, writeText, List.append_assoc]
      rfl
    rw [hjson, readItem_text (spells_escape s.toList) hblanks rest, String.ofList_toList]
    rfl

theorem readWhole?_of_readItem {room : Nat} {cs rest : List Char} {i : Item}
    (h : readItem cs = .ok (i, rest)) (hscalar : ∀ f, i ≠ .opening f) :
    readWhole? room cs = .ok (i, rest) := by
  unfold readWhole?
  rw [h]
  cases i with
  | opening f => exact absurd rfl (hscalar f)
  | null | bool _ | number _ | text _ => rfl

/-- What a value is written as is read as that value. -/
theorem readWithin_json (room : Nat) (v : Value) {rest : List Char} (hrest : Delimited rest) :
    readWithin room (v.json ++ rest) = .ok (v, rest) := by
  have hscalar : ∀ f, v.item ≠ .opening f := by cases v <;> exact fun f => Item.noConfusion
  have hread : readWhole? room (v.json ++ rest) = .ok (v.item, rest) :=
    readWhole?_of_readItem (readItem_json v hrest) hscalar
  simp only [readWithin, hread, require, bind, Except.bind, ofItem?_item]
  rfl

/-- A value is written from a character that is neither blank nor a
bracket. -/
theorem json_head (v : Value) : ∃ c u, v.json = c :: u ∧ isBlank c = false ∧ c ≠ ']' := by
  cases v with
  | id n =>
    obtain ⟨d, ds, hds, hd⟩ := (isWhole_toDigits n.toNat).head
    refine ⟨d, ds, hds, isBlank_of_number (.inr hd), ?_⟩
    rintro rfl
    exact absurd hd (by decide)
  | name s => exact ⟨'"', _, rfl, by decide, by decide⟩

/-! ## 2. Lists -/

/-- A value in front of the elements that are read behind it. -/
def consRead (v : Value) (read : Except Refusal (List Value × List Char)) :
    Except Refusal (List Value × List Char) :=
  read.map fun (vs, rest) => (v :: vs, rest)

theorem readElements_end (most : Nat) (first : Bool) (rest : List Char) :
    readElements (most + 1) first (']' :: rest) = .ok ([], rest) := by
  rw [readElements, skipBlanks_cons (by decide)]
  rfl

/-- The first element is read, and the others behind it. -/
theorem readElements_first (most : Nat) (v : Value) {tail : List Char} (htail : Delimited tail) :
    readElements (most + 1) true (v.json ++ tail) =
      consRead v (readElements most false tail) := by
  have hread := readWithin_json (nestingLimit - 1) v htail
  obtain ⟨c, u, hjson, hblank, hbracket⟩ := v.json_head
  rw [hjson, List.cons_append] at hread ⊢
  rw [readElements, skipBlanks_cons hblank]
  simp only [if_neg hbracket, readElements.behindComma, if_true, bind, Except.bind, pure,
    Except.pure, hread, consRead]
  cases readElements most false tail <;> rfl

/-- Behind a comma the elements are read as at the beginning. -/
theorem readElements_comma (most : Nat) (v : Value) (tail : List Char) :
    readElements most false (',' :: (v.json ++ tail)) =
      readElements most true (v.json ++ tail) := by
  obtain ⟨c, u, hjson, hblank, hbracket⟩ := v.json_head
  have hcomma : ',' ≠ ']' := by decide
  cases most with
  | zero => rfl
  | succ most =>
    rw [hjson, List.cons_append, readElements, readElements, skipBlanks_cons (by decide),
      skipBlanks_cons hblank]
    simp only [readElements.behindComma, skipBlanks_cons hblank, if_neg hbracket, if_neg hcomma,
      Bool.false_eq_true, if_false, if_true]

/-- Behind an element there is a comma or the bracket. -/
theorem delimited_jsonRest (vs : List Value) (rest : List Char) :
    Delimited (jsonRest vs ++ ']' :: rest) := by
  intro c hc
  cases vs with
  | nil =>
    cases Option.mem_some_iff.1 hc
    decide
  | cons v vs =>
    cases Option.mem_some_iff.1 hc
    decide

/-- The elements of a list behind the first one are read up to the bracket. -/
theorem readElements_jsonRest (vs : List Value) : ∀ {most : Nat} (rest : List Char),
    vs.length < most →
      readElements most false (jsonRest vs ++ ']' :: rest) = .ok (vs, rest) := by
  induction vs with
  | nil =>
    intro most rest hmost
    obtain ⟨most, rfl⟩ := Nat.exists_eq_add_one_of_ne_zero (Nat.ne_of_gt hmost)
    exact readElements_end most false rest
  | cons v vs ih =>
    intro most rest hmost
    obtain ⟨most, rfl⟩ := Nat.exists_eq_add_one_of_ne_zero (Nat.ne_zero_of_lt hmost)
    rw [jsonRest, List.cons_append, List.cons_append, List.append_assoc, readElements_comma,
      readElements_first most v (delimited_jsonRest vs rest),
      ih rest (Nat.lt_of_succ_lt_succ hmost)]
    rfl

/-- There is a comma for every element behind the first one. -/
theorem length_le_jsonRest (vs : List Value) : vs.length ≤ (jsonRest vs).length := by
  induction vs with
  | nil => exact Nat.le_refl 0
  | cons v vs ih =>
    rw [jsonRest, List.cons_append, List.length_cons, List.length_cons, List.length_append]
    omega

theorem readItem_bracket (cs : List Char) : readItem ('[' :: cs) = .ok (.opening .list, cs) := rfl

/-- What is read between the brackets of a text is the list it stands for. -/
theorem listOfJson_bracket {cs : List Char} {vs : List Value}
    (h : readElements (cs.length + 1) true cs = .ok (vs, [])) :
    listOfJson ('[' :: cs) = .ok vs := by
  simp only [listOfJson, readItem_bracket, require, bind, Except.bind, h]
  rfl

/-- The text of a list is read as that list. -/
theorem listOfJson_jsonList (vs : List Value) : listOfJson (jsonList vs) = .ok vs := by
  cases vs with
  | nil => exact listOfJson_bracket (readElements_end _ true [])
  | cons v vs =>
    have hlength := length_le_jsonRest vs
    have hbehind : readElements (v.json ++ (jsonRest vs ++ [']'])).length false
        (jsonRest vs ++ [']']) = .ok (vs, []) :=
      readElements_jsonRest vs [] (by simp only [List.length_append, List.length_cons]; omega)
    have hall : readElements ((v.json ++ (jsonRest vs ++ [']'])).length + 1) true
        (v.json ++ (jsonRest vs ++ [']'])) = .ok (v :: vs, []) := by
      rw [readElements_first _ v (delimited_jsonRest vs []), hbehind]
      rfl
    rw [jsonList, List.cons_append, List.cons_append, List.append_assoc]
    exact listOfJson_bracket hall

/-! ## 3. Round trips -/

/-- A list of values is read from its text, and a list that was read from
whatever text is read again from its own.  Different lists have different
texts; in particular no id can be taken for a name in its place. -/
theorem jsonList_round_trip :
    (∀ vs, listOfJson (jsonList vs) = .ok vs) ∧
      (∀ text vs, listOfJson text = .ok vs → listOfJson (jsonList vs) = .ok vs) ∧
      (∀ vs ws, jsonList vs = jsonList ws → vs = ws) ∧
      ∀ before after behind n s,
        jsonList (before ++ id n :: after) ≠ jsonList (before ++ name s :: behind) := by
  have hinjective : ∀ vs ws, jsonList vs = jsonList ws → vs = ws := by
    intro vs ws h
    have hread : (Except.ok vs : Except Refusal (List Value)) = .ok ws := by
      rw [← listOfJson_jsonList vs, h, listOfJson_jsonList ws]
    exact Except.ok.inj hread
  refine ⟨listOfJson_jsonList, fun _ vs _ => listOfJson_jsonList vs, hinjective, ?_⟩
  intro before after behind n s h
  have hsame := List.append_cancel_left (hinjective _ _ h)
  exact Value.noConfusion (List.cons.inj hsame).1

/-- The largest id, the name of its digits, and names that would be
something else without their quotes and escapes. -/
def awkwardValues : List Value :=
  [id 18446744073709551615, name "18446744073709551615", name "", name "\"\\\x00\n😀", name "[1]"]

theorem awkwardValues_round_trip :
    jsonList awkwardValues =
        "[18446744073709551615,\"18446744073709551615\",\"\",\"\\\"\\\\\\u0000\\n😀\",\"[1]\"]".toList ∧
      listOfJson (jsonList awkwardValues) = .ok awkwardValues ∧
      listOfJson (jsonList [id 1, name "A/"]) = .ok [id 1, name "A/"] := by
  have hspelled : listOfJson [' ', '[', '1', ' ', ',', '"', '\\', 'u', '0', '0', '4', '1', '\\',
      '/', '"', ']'] = .ok [id 1, name "A/"] := by rfl
  refine ⟨?_, jsonList_round_trip.1 _, jsonList_round_trip.2.1 _ _ hspelled⟩
  simp [awkwardValues, jsonList, jsonRest, json, writeText, escape, hexDigit,
    Nat.toDigits_of_base_le, Nat.toDigits_of_lt_base]

end CursorTree.Value
