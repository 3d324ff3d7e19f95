/-
CursorTree.Proofs.SnapshotReading — a snapshot is read back from its JSON.

The text of a snapshot is fixed but for the values and the list of subtrees:
each node is an object of two members in one order, without blanks.  So a
reader only has to look for the text between the values, and what it reads
of values it leaves to the reader of JSON.  Names may look like anything,
the text between the values included.  That does no harm, because a name is
read as a string up to its own closing quote, whatever is in it.

## Where a list ends

The two functions that write subtrees, the first one and those behind a
comma, have a reader each.  Both stop at the bracket that closes the list.
The statement for a node holds with anything behind it, since a node ends at
its own brace (`readNode_json`), so the three go by recursion on a snapshot
and its subtrees.  Each step of a reader gets past a character at least.
That is why the length of the text is room enough.
-/
import CursorTree.Proofs.ValueLists
import CursorTree.Snapshot
import Mathlib.Data.List.Forall2

namespace CursorTree.Snapshot

open CursorTree.Json

/-! ## 1. The form of the text -/

/-- How the value of a node is written: an id in decimal digits, and a name
between quotes, where each character stands as it is or is escaped. -/
inductive ResultText : Option Value → List Char → Prop
  | nothing : ResultText none "null".toList
  | id (i : UInt64) : ResultText (some (.id i)) (Nat.toDigits 10 i.toNat)
  | name {n : String} {us : List (List Char)} (h : List.Forall₂ EscapedAs n.toList us) :
      ResultText (some (.name n)) ('"' :: us.flatten ++ ['"'])

theorem resultText_jsonResult (r : Option Value) : ResultText r (jsonResult r) := by
  match r with
  | none => exact .nothing
  | some (.id i) => exact .id i
  | some (.name n) =>
    have h : List.Forall₂ EscapedAs n.toList (n.toList.map escape) :=
      List.forall₂_map_right_iff.2 (List.forall₂_same.2 fun c _ => escapedAs_escape c)
    exact .name h

theorem jsonRest_eq_flatMap (ss : List Snapshot) :
    jsonRest ss = ss.flatMap fun s => ',' :: s.json := by
  induction ss with
  | nil => rfl
  | cons s ss ih => rw [jsonRest, ih, List.flatMap_cons]

/-- Between subtrees there is a comma. -/
theorem jsonAll_eq_intercalate (ss : List Snapshot) :
    jsonAll ss = [','].intercalate (ss.map json) := by
  cases ss with
  | nil => rfl
  | cons s ss =>
    rw [jsonAll, jsonRest_eq_flatMap]
    induction ss generalizing s with
    | nil => simp [List.intercalate]
    | cons t ss ih =>
      rw [List.flatMap_cons, List.map_cons, List.intercalate_cons_of_ne_nil (by simp), ← ih t]
      simp

/-- A node is written as an object, which starts with a brace. -/
theorem json_head (s : Snapshot) : ∃ u, s.json = '\x7b' :: u := by
  cases s with
  | node r ss =>
    rw [json]
    exact ⟨_, rfl⟩

/-! ## 2. Reading -/

/-- Reads the value of a node, or the word for none. -/
def readResult (cs : List Char) : Option (Option Value × List Char) :=
  match readItem cs with
  | .ok (.null, cs) => some (none, cs)
  | .ok (i, cs) => (Value.ofItem? i).map fun v => (some v, cs)
  | .error _ => none

mutual

/-- Reads a snapshot, with room for so many steps. -/
def readNode : Nat → List Char → Option (Snapshot × List Char)
  | 0, _ => none
  | room + 1, cs => do
    let (r, cs) ← readResult (← resultKey.isPrefixOf? cs)
    let (ss, cs) ← readAll room (← subtreesKey.isPrefixOf? cs)
    return (node r ss, ← ['\x7d'].isPrefixOf? cs)

/-- Reads snapshots up to the closing bracket, the first one without a comma
in front. -/
def readAll : Nat → List Char → Option (List Snapshot × List Char)
  | 0, _ => none
  | _ + 1, ']' :: cs => some ([], cs)
  | room + 1, cs => do
    let (s, cs) ← readNode room cs
    let (ss, cs) ← readRest room cs
    return (s :: ss, cs)

/-- Reads snapshots up to the closing bracket, each behind a comma. -/
def readRest : Nat → List Char → Option (List Snapshot × List Char)
  | _ + 1, ']' :: cs => some ([], cs)
  | room + 1, ',' :: cs => do
    let (s, cs) ← readNode room cs
    let (ss, cs) ← readRest room cs
    return (s :: ss, cs)
  | _, _ => none

end

/-- Reads a whole text as a snapshot. -/
def ofJson? (text : List Char) : Option Snapshot :=
  match readNode text.length text with
  | some (s, []) => some s
  | _ => none

/-! ## 3. What is written is read -/

theorem isPrefixOf?_append (xs ys : List Char) : xs.isPrefixOf? (xs ++ ys) = some ys :=
  List.isPrefixOf?_eq_some_iff_append_eq.2 rfl

theorem readResult_jsonResult (r : Option Value) {rest : List Char} (hrest : Delimited rest) :
    readResult (jsonResult r ++ rest) = some (r, rest) := by
  cases r with
  | none => rfl
  | some v =>
    rw [readResult, jsonResult, Value.readItem_json v hrest]
    cases v <;> rfl

/-- Behind the value of a node the subtrees are announced by a comma. -/
theorem delimited_subtreesKey (rest : List Char) : Delimited (subtreesKey ++ rest) := by
  intro c hc
  cases Option.mem_some_iff.1 hc
  decide

/-- A node is read if there is room for its subtrees. -/
theorem readNode_of_readAll {room : Nat} {ss : List Snapshot} {rest : List Char}
    (h : readAll room (jsonAll ss ++ ']' :: '\x7d' :: rest) = some (ss, '\x7d' :: rest))
    (r : Option Value) : readNode (room + 1) ((node r ss).json ++ rest) = some (node r ss, rest) := by
  have htext : (node r ss).json ++ rest = resultKey ++ (jsonResult r ++
      (subtreesKey ++ (jsonAll ss ++ ']' :: '\x7d' :: rest))) := by
    simp [json]
  have hbrace : ['\x7d'].isPrefixOf? ('\x7d' :: rest) = some rest := isPrefixOf?_append ['\x7d'] rest
  simp only [readNode, htext, isPrefixOf?_append, Option.bind_eq_bind, Option.bind_some,
    readResult_jsonResult r (delimited_subtreesKey _), h, hbrace]
  rfl

mutual

theorem readNode_json : ∀ (s : Snapshot) {room : Nat} (rest : List Char),
    s.json.length ≤ room → readNode room (s.json ++ rest) = some (s, rest)
  | node r ss, room, rest, hroom => by
      have hlength : (jsonAll ss).length + 2 ≤ (node r ss).json.length := by
        simp only [json, List.length_append, List.length_cons, List.length_nil]
        omega
      obtain ⟨room, rfl⟩ : ∃ k, room = k + 1 := Nat.exists_eq_add_one_of_ne_zero (by omega)
      exact readNode_of_readAll (readAll_jsonAll ss ('\x7d' :: rest) (by omega)) r

theorem readAll_jsonAll : ∀ (ss : List Snapshot) {room : Nat} (rest : List Char),
    (jsonAll ss).length < room → readAll room (jsonAll ss ++ ']' :: rest) = some (ss, rest)
  | [], room + 1, rest, _ => by
      rw [jsonAll, List.nil_append, readAll]
  | s :: ss, room + 1, rest, hroom => by
      rw [jsonAll, List.length_append] at hroom
      obtain ⟨u, hu⟩ := s.json_head
      have hsome : 0 < s.json.length := by rw [hu]; exact Nat.succ_pos _
      have hfirst : readNode room (s.json ++ (jsonRest ss ++ ']' :: rest)) =
          some (s, jsonRest ss ++ ']' :: rest) := readNode_json s _ (by omega)
      have hothers : readRest room (jsonRest ss ++ ']' :: rest) = some (ss, rest) :=
        readRest_jsonRest ss rest (by omega)
      rw [jsonAll, List.append_assoc, readAll]
      · simp only [hfirst, hothers, Option.bind_eq_bind, Option.bind_some]
        rfl
      · -- a node does not start with the bracket
        rw [hu]
        rintro cs hcs
        exact absurd (List.head_eq_of_cons_eq hcs) (by decide)

theorem readRest_jsonRest : ∀ (ss : List Snapshot) {room : Nat} (rest : List Char),
    (jsonRest ss).length < room → readRest room (jsonRest ss ++ ']' :: rest) = some (ss, rest)
  | [], room + 1, rest, _ => by
      rw [jsonRest, List.nil_append, readRest]
  | s :: ss, room + 1, rest, hroom => by
      rw [jsonRest, List.cons_append, List.length_cons, List.length_append] at hroom
      have hfirst : readNode room (s.json ++ (jsonRest ss ++ ']' :: rest)) =
          some (s, jsonRest ss ++ ']' :: rest) := readNode_json s _ (by omega)
      have hothers : readRest room (jsonRest ss ++ ']' :: rest) = some (ss, rest) :=
        readRest_jsonRest ss rest (by omega)
      rw [jsonRest, List.cons_append, List.cons_append, List.append_assoc, readRest]
      simp only [hfirst, hothers, Option.bind_eq_bind, Option.bind_some]
      rfl

end

theorem ofJson?_json (s : Snapshot) : ofJson? s.json = some s := by
  have hread := readNode_json s [] (Nat.le_refl _)
  rw [List.append_nil] at hread
  rw [ofJson?, hread]

/-! ## 4. Nothing is lost -/

/-- The text of a node is an object of its value and the list of its subtrees,
in this order and without blanks.  Every snapshot is read from its text, so
different ones have different texts. -/
theorem json_loses_nothing :
    (∀ (r : Option Value) (ss : List Snapshot), ∃ u, ResultText r u ∧ (node r ss).json =
        "\x7b\"result\":".toList ++ u ++ ",\"subtrees\":[".toList ++
          [','].intercalate (ss.map json) ++ "]\x7d".toList) ∧
      (∀ s, ofJson? s.json = some s) ∧
      ∀ s t : Snapshot, s.json = t.json → s = t := by
  refine ⟨fun r ss => ⟨jsonResult r, resultText_jsonResult r, ?_⟩, ofJson?_json, fun s t h => ?_⟩
  · rw [json, jsonAll_eq_intercalate]
    rfl
  · have hread : some s = some t := by rw [← ofJson?_json s, h, ofJson?_json t]
    exact Option.some.inj hread

/-- A leaf whose name goes on like a node with a subtree. -/
def forgedNode : Snapshot :=
  node (some (.name "x\",\"subtrees\":[\x7b\"result\":7,\"subtrees\":[]\x7d]\x7d")) []

/-- The node that the name pretends to be. -/
def genuineNode : Snapshot := node (some (.name "x")) [node (some (.id 7)) []]

theorem forgedNode_read :
    genuineNode.json =
        "\x7b\"result\":\"x\",\"subtrees\":[\x7b\"result\":7,\"subtrees\":[]\x7d]\x7d".toList ∧
      ofJson? forgedNode.json = some forgedNode ∧ forgedNode.json ≠ genuineNode.json := by
  refine ⟨by decide, json_loses_nothing.2.1 forgedNode, fun h => ?_⟩
  have hsame := json_loses_nothing.2.2 forgedNode genuineNode h
  simp [forgedNode, genuineNode] at hsame

end CursorTree.Snapshot
