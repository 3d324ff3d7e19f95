/-
CursorTree.Proofs.DisplayedSnapshots — a displayed snapshot is read in one way.

A snapshot is displayed as a label and subtrees between parentheses, where a
blank stands in front of each subtree and none behind the last one.  Names
are printed as they are, so this can only be read if they have neither
blanks nor parentheses of their own.  An empty name does no harm.

## Where a text ends

A label ends at the first blank or parenthesis.  Behind it there is a blank
if a further subtree follows, and otherwise the closing parenthesis.  So the
statement that goes through by recursion on two snapshots is about their
texts followed by anything at all (`printed_eq_of_chars`), and its companion
for lists is about subtrees followed by a parenthesis.

Equal texts do not give equal values: a name may look like a number, or like
the underscore that stands for none.  They give equal labels at equal places,
which is `printed`, and equal values if no name is mistaken (`IsUnmistaken`).
-/
import CursorTree.Snapshot
import Mathlib.Data.String.Basic

namespace CursorTree

/-! ## 1. Balanced texts -/

/-- How many parentheses a text opens and does not close. -/
def excess (cs : List Char) : Int := cs.count '(' - cs.count ')'

/-- A text that closes every parenthesis it opens, and none before. -/
structure Balanced (cs : List Char) : Prop where
  closed : excess cs = 0
  never_below : ∀ p, p <+: cs → 0 ≤ excess p

theorem excess_append (cs ds : List Char) : excess (cs ++ ds) = excess cs + excess ds := by
  simp only [excess, List.count_append]
  omega

theorem excess_eq_zero {cs : List Char} (h : ∀ c ∈ cs, c ≠ '(' ∧ c ≠ ')') : excess cs = 0 := by
  have hopen : cs.count '(' = 0 := List.count_eq_zero.2 fun hc => (h _ hc).1 rfl
  have hclose : cs.count ')' = 0 := List.count_eq_zero.2 fun hc => (h _ hc).2 rfl
  rw [excess, hopen, hclose]
  rfl

namespace Balanced

theorem of_plain {cs : List Char} (h : ∀ c ∈ cs, c ≠ '(' ∧ c ≠ ')') : Balanced cs where
  closed := excess_eq_zero h
  never_below _ hp := Int.le_of_eq (excess_eq_zero fun c hc => h c (hp.subset hc)).symm

theorem append {cs ds : List Char} (hc : Balanced cs) (hd : Balanced ds) :
    Balanced (cs ++ ds) where
  closed := by rw [excess_append, hc.closed, hd.closed]; rfl
  never_below p hp := by
    rcases List.prefix_or_prefix_of_prefix hp (List.prefix_append cs ds) with hin | ⟨q, rfl⟩
    · exact hc.never_below p hin
    · have hq : q <+: ds := (List.prefix_append_right_inj cs).1 hp
      rw [excess_append, hc.closed, Int.zero_add]
      exact hd.never_below q hq

/-- The parenthesis in front of a balanced text is closed by the one behind
it and not earlier. -/
theorem excess_pos {cs p : List Char} (h : Balanced cs) (hp : p <+: '(' :: (cs ++ [')']))
    (hne : p ≠ []) (hproper : p ≠ '(' :: (cs ++ [')'])) : 0 < excess p := by
  rcases List.prefix_cons_iff.1 hp with rfl | ⟨q, rfl, hq⟩
  · exact absurd rfl hne
  · rcases List.prefix_concat_iff.1 hq with rfl | hq
    · exact absurd rfl hproper
    · have hbelow := h.never_below q hq
      have hopen : excess ('(' :: q) = 1 + excess q := excess_append ['('] q
      omega

theorem enclosed {cs : List Char} (h : Balanced cs) : Balanced ('(' :: (cs ++ [')'])) := by
  have hclosed : excess ('(' :: (cs ++ [')'])) = 0 := by
    rw [show '(' :: (cs ++ [')']) = ['('] ++ (cs ++ [')']) from rfl, excess_append, excess_append,
      h.closed]
    rfl
  refine ⟨hclosed, fun p hp => ?_⟩
  by_cases hne : p = []
  · rw [hne]
    exact Int.le_refl 0
  by_cases hproper : p = '(' :: (cs ++ [')'])
  · rw [hproper]
    exact Int.le_of_eq hclosed.symm
  · exact Int.le_of_lt (h.excess_pos hp hne hproper)

end Balanced

namespace Snapshot

/-! ## 2. What is displayed -/

mutual

/-- The values of the nodes in preorder. -/
def results : Snapshot → List (Option Value)
  | node r ss => r :: resultsAll ss

def resultsAll : List Snapshot → List (Option Value)
  | [] => []
  | s :: ss => s.results ++ resultsAll ss

end

mutual

/-- The snapshot with a name at each node: the label that is displayed there. -/
def printed : Snapshot → Snapshot
  | node r ss => node (some (.name (String.ofList (label r)))) (printedAll ss)

def printedAll : List Snapshot → List Snapshot
  | [] => []
  | s :: ss => s.printed :: printedAll ss

end

/-- All names among some values have a property. -/
def EveryName (P : String → Prop) (rs : List (Option Value)) : Prop :=
  ∀ n, some (.name n) ∈ rs → P n

/-- Names without blanks and parentheses. -/
def IsPlain (n : String) : Prop := ' ' ∉ n.toList ∧ '(' ∉ n.toList ∧ ')' ∉ n.toList

/-- Names that look neither like an id nor like the label for none. -/
def IsUnmistaken (n : String) : Prop := n ≠ "_" ∧ ∀ i : UInt64, n ≠ (Value.id i).display

theorem EveryName.node {P : String → Prop} {r : Option Value} {ss : List Snapshot}
    (h : EveryName P (node r ss).results) : EveryName P [r] ∧ EveryName P (resultsAll ss) :=
  ⟨fun n hn => h n (List.mem_cons.2 (.inl (List.mem_singleton.1 hn))),
    fun n hn => h n (List.mem_cons_of_mem _ hn)⟩

theorem EveryName.cons {P : String → Prop} {s : Snapshot} {ss : List Snapshot}
    (h : EveryName P (resultsAll (s :: ss))) :
    EveryName P s.results ∧ EveryName P (resultsAll ss) :=
  ⟨fun n hn => h n (List.mem_append_left _ hn), fun n hn => h n (List.mem_append_right _ hn)⟩

theorem chars_node (r : Option Value) (ss : List Snapshot) :
    (node r ss).chars = '(' :: ((label r ++ charsAll ss) ++ [')']) := by
  rw [chars]
  rfl

/-! ## 3. Labels -/

/-- True for what a label may have in it. -/
def isLabelChar (c : Char) : Bool := c ≠ ' ' && c ≠ '(' && c ≠ ')'

theorem isLabelChar_of_mem_label {r : Option Value} (h : EveryName IsPlain [r]) :
    ∀ c ∈ label r, isLabelChar c = true := by
  intro c hc
  match r with
  | none => cases List.mem_singleton.1 hc; decide
  | some (.id i) =>
    have hdigit : c.isDigit = true := Value.isDigit_of_mem_chars hc
    simp only [isLabelChar, Bool.and_eq_true, decide_eq_true_eq]
    refine ⟨⟨?_, ?_⟩, ?_⟩ <;> rintro rfl <;> exact absurd hdigit (by decide)
  | some (.name n) =>
    obtain ⟨hblank, hopen, hclose⟩ := h n (List.mem_singleton_self _)
    simp only [isLabelChar, Bool.and_eq_true, decide_eq_true_eq]
    exact ⟨⟨fun heq => hblank (heq ▸ hc), fun heq => hopen (heq ▸ hc)⟩,
      fun heq => hclose (heq ▸ hc)⟩

/-- A text with something else than digits in it is no displayed id. -/
theorem ne_display_id {n : String} {c : Char} (hc : c ∈ n.toList) (hdigit : c.isDigit = false)
    (i : UInt64) : n ≠ (Value.id i).display := by
  rintro rfl
  rw [Value.display, String.toList_ofList] at hc
  exact absurd ((Value.isDigit_of_mem_chars hc).symm.trans hdigit) (by decide)

/-- A label that is displayed as an unmistaken name is that name. -/
theorem eq_name_of_label {r : Option Value} {n : String} (hn : IsUnmistaken n)
    (h : label r = n.toList) : r = some (.name n) := by
  match r with
  | none => exact absurd (String.toList_injective h.symm) hn.1
  | some (.id i) =>
    refine absurd ?_ (hn.2 i)
    rw [Value.display, ← String.ofList_toList (s := n), ← h]
    rfl
  | some (.name m) => rw [String.toList_injective h]

theorem label_injective {r r' : Option Value} (hr : EveryName IsUnmistaken [r])
    (hr' : EveryName IsUnmistaken [r']) (h : label r = label r') : r = r' := by
  have hnone : ∀ i : UInt64, label none ≠ label (some (.id i)) := fun i hi =>
    ne_display_id (n := "_") (c := '_') (by decide) (by decide) i (congrArg String.ofList hi)
  match r, r' with
  | _, some (.name n) => exact eq_name_of_label (hr' n (List.mem_singleton_self _)) h
  | some (.name n), _ => exact (eq_name_of_label (hr n (List.mem_singleton_self _)) h.symm).symm
  | none, none => rfl
  | none, some (.id i) => exact absurd h (hnone i)
  | some (.id i), none => exact absurd h.symm (hnone i)
  | some (.id i), some (.id j) => rw [Value.chars_id_injective h]

/-! ## 4. Displayed snapshots are balanced -/

theorem balanced_label {r : Option Value} (h : EveryName IsPlain [r]) : Balanced (label r) := by
  refine .of_plain fun c hc => ?_
  have hlabel := isLabelChar_of_mem_label h c hc
  simp only [isLabelChar, Bool.and_eq_true, decide_eq_true_eq] at hlabel
  exact ⟨hlabel.1.2, hlabel.2⟩

mutual

/-- The outer parentheses enclose a text that is balanced by itself. -/
theorem chars_eq_enclosed : ∀ s : Snapshot, EveryName IsPlain s.results →
    ∃ cs, Balanced cs ∧ s.chars = '(' :: (cs ++ [')'])
  | node r ss, h => by
      obtain ⟨hr, hss⟩ := h.node
      exact ⟨_, (balanced_label hr).append (balanced_charsAll ss hss), chars_node r ss⟩

theorem balanced_charsAll : ∀ ss : List Snapshot, EveryName IsPlain (resultsAll ss) →
    Balanced (charsAll ss)
  | [], _ => .of_plain fun _ hc => absurd hc List.not_mem_nil
  | s :: ss, h => by
      obtain ⟨hs, hss⟩ := h.cons
      obtain ⟨cs, hcs, heq⟩ := chars_eq_enclosed s hs
      have hblank : Balanced [' '] := .of_plain (by simp)
      rw [charsAll, heq]
      exact (hblank.append hcs.enclosed).append (balanced_charsAll ss hss)

end

/-! ## 5. Reading -/

/-- A label is all there is up to a character that belongs to no label. -/
theorem label_append_inj {xs ys us vs : List Char} (hxs : ∀ c ∈ xs, isLabelChar c = true)
    (hys : ∀ c ∈ ys, isLabelChar c = true) (hus : ∀ c ∈ us.head?, isLabelChar c = false)
    (hvs : ∀ c ∈ vs.head?, isLabelChar c = false) (h : xs ++ us = ys ++ vs) :
    xs = ys ∧ us = vs := by
  have htake : ∀ {zs ws : List Char}, (∀ c ∈ zs, isLabelChar c = true) →
      (∀ c ∈ ws.head?, isLabelChar c = false) → (zs ++ ws).takeWhile isLabelChar = zs := by
    intro zs ws hzs hws
    rw [List.takeWhile_append_of_pos hzs]
    cases ws with
    | nil => exact List.append_nil zs
    | cons c ws => rw [List.takeWhile_cons, hws c rfl]; exact List.append_nil zs
  have heq : xs = ys := by rw [← htake hxs hus, h, htake hys hvs]
  subst heq
  exact ⟨rfl, List.append_cancel_left h⟩

/-- Behind a label there is a blank or the closing parenthesis. -/
theorem head?_charsAll (ss : List Snapshot) (rest : List Char) :
    ∀ c ∈ (charsAll ss ++ ')' :: rest).head?, isLabelChar c = false := by
  intro c hc
  cases ss <;> cases Option.mem_some_iff.1 hc <;> decide

mutual

theorem printed_eq_of_chars : ∀ (s t : Snapshot) {rest rest' : List Char},
    EveryName IsPlain s.results → EveryName IsPlain t.results →
      s.chars ++ rest = t.chars ++ rest' → s.printed = t.printed ∧ rest = rest'
  | node r ss, node r' ts, rest, rest', hs, ht, h => by
      obtain ⟨hr, hss⟩ := hs.node
      obtain ⟨hr', hts⟩ := ht.node
      have hinside : label r ++ (charsAll ss ++ ')' :: rest) =
          label r' ++ (charsAll ts ++ ')' :: rest') := by
        simpa only [chars_node, List.cons_append, List.append_assoc, List.nil_append,
          List.cons.injEq, true_and] using h
      obtain ⟨hlabel, hbelow⟩ :=
        label_append_inj (isLabelChar_of_mem_label hr) (isLabelChar_of_mem_label hr')
          (head?_charsAll ss rest) (head?_charsAll ts rest') hinside
      obtain ⟨hall, hrest⟩ := printedAll_eq_of_charsAll ss ts hss hts hbelow
      exact ⟨by rw [printed, printed, hlabel, hall], hrest⟩

theorem printedAll_eq_of_charsAll : ∀ (ss ts : List Snapshot) {rest rest' : List Char},
    EveryName IsPlain (resultsAll ss) → EveryName IsPlain (resultsAll ts) →
      charsAll ss ++ ')' :: rest = charsAll ts ++ ')' :: rest' →
        printedAll ss = printedAll ts ∧ rest = rest'
  | [], [], _, _, _, _, h => ⟨rfl, List.tail_eq_of_cons_eq h⟩
  | [], _ :: _, _, _, _, _, h => absurd (List.head_eq_of_cons_eq h) (by decide)
  | _ :: _, [], _, _, _, _, h => absurd (List.head_eq_of_cons_eq h) (by decide)
  | s :: ss, t :: ts, rest, rest', hs, ht, h => by
      obtain ⟨hs, hss⟩ := hs.cons
      obtain ⟨ht, hts⟩ := ht.cons
      have hbehind : s.chars ++ (charsAll ss ++ ')' :: rest) =
          t.chars ++ (charsAll ts ++ ')' :: rest') := by
        simpa only [charsAll, List.cons_append, List.append_assoc, List.cons.injEq,
          true_and] using h
      obtain ⟨hfirst, hothers⟩ := printed_eq_of_chars s t hs ht hbehind
      obtain ⟨hall, hrest⟩ := printedAll_eq_of_charsAll ss ts hss hts hothers
      exact ⟨by rw [printedAll, printedAll, hfirst, hall], hrest⟩

end

mutual

/-- Labels that cannot be mistaken determine the values. -/
theorem eq_of_printed_eq : ∀ s t : Snapshot, EveryName IsUnmistaken s.results →
    EveryName IsUnmistaken t.results → s.printed = t.printed → s = t
  | node r ss, node r' ts, hs, ht, h => by
      obtain ⟨hr, hss⟩ := hs.node
      obtain ⟨hr', hts⟩ := ht.node
      rw [printed, printed, node.injEq, Option.some.injEq, Value.name.injEq] at h
      rw [label_injective hr hr' (String.ofList_injective h.1),
        eqAll_of_printedAll_eq ss ts hss hts h.2]

theorem eqAll_of_printedAll_eq : ∀ ss ts : List Snapshot, EveryName IsUnmistaken (resultsAll ss) →
    EveryName IsUnmistaken (resultsAll ts) → printedAll ss = printedAll ts → ss = ts
  | [], [], _, _, _ => rfl
  | [], _ :: _, _, _, h => absurd h (List.cons_ne_nil _ _).symm
  | _ :: _, [], _, _, h => absurd h (List.cons_ne_nil _ _)
  | s :: ss, t :: ts, hs, ht, h => by
      obtain ⟨hs, hss⟩ := hs.cons
      obtain ⟨ht, hts⟩ := ht.cons
      rw [printedAll, printedAll, List.cons.injEq] at h
      rw [eq_of_printed_eq s t hs ht h.1, eqAll_of_printedAll_eq ss ts hss hts h.2]

end

/-- A displayed snapshot without blanks and parentheses in its names is
balanced, and nothing in front of its end is.  It is displayed like another
one only if both display the same labels in the same shape; and then they
are the same, unless a name is mistaken for something else. -/
theorem display_uniquely_readable (s : Snapshot) (hs : EveryName IsPlain s.results) :
    Balanced s.display.toList ∧
      (∀ p, p <+: s.display.toList → p ≠ [] → p ≠ s.display.toList → ¬ Balanced p) ∧
      ∀ t : Snapshot, EveryName IsPlain t.results → s.display = t.display →
        s.printed = t.printed ∧
          (EveryName IsUnmistaken s.results → EveryName IsUnmistaken t.results → s = t) := by
  have htext : ∀ t : Snapshot, t.display.toList = t.chars := fun t => String.toList_ofList
  obtain ⟨cs, hcs, heq⟩ := chars_eq_enclosed s hs
  rw [htext s, heq]
  refine ⟨hcs.enclosed, fun p hp hne hproper hbalanced => ?_, fun t ht hst => ?_⟩
  · exact absurd hbalanced.closed (Int.ne_of_gt (hcs.excess_pos hp hne hproper))
  · have hchars : s.chars ++ [] = t.chars ++ [] := by rw [← htext s, hst, htext t]
    have hprinted := (printed_eq_of_chars s t hs ht hchars).1
    exact ⟨hprinted, fun hs ht => eq_of_printed_eq s t hs ht hprinted⟩

/-- A tree with a nameless leaf. -/
def namelessLeaf : Snapshot :=
  node none [node (some (.name "a")) [node (some (.id 1)) []], node (some (.name "")) []]

/-- The same with its leaves on one level. -/
def flattened : Snapshot :=
  node none [node (some (.name "a")) [], node (some (.id 1)) [], node (some (.name "")) []]

/-- The same as the first one, but with names for everything. -/
def disguised : Snapshot :=
  node (some (.name "_"))
    [node (some (.name "a")) [node (some (.name "1")) []], node (some (.name "")) []]

theorem namelessLeaf_readable :
    EveryName IsPlain namelessLeaf.results ∧ namelessLeaf.display = "(_ (a (1)) ())" ∧
      Balanced namelessLeaf.display.toList ∧
      namelessLeaf.printed = disguised.printed ∧ namelessLeaf.display ≠ flattened.display := by
  have hplain : EveryName IsPlain namelessLeaf.results := by
    simp [EveryName, namelessLeaf, results, resultsAll, IsPlain]
  have hdisguised : EveryName IsPlain disguised.results := by
    simp [EveryName, disguised, results, resultsAll, IsPlain]
  have hflattened : EveryName IsPlain flattened.results := by
    simp [EveryName, flattened, results, resultsAll, IsPlain]
  have hdisplay : namelessLeaf.display = "(_ (a (1)) ())" := by rfl
  obtain ⟨hbalanced, -, hread⟩ := display_uniquely_readable namelessLeaf hplain
  have hsame : namelessLeaf.display = disguised.display := by rfl
  refine ⟨hplain, hdisplay, hbalanced, (hread disguised hdisguised hsame).1, fun h => ?_⟩
  have hempty : ∀ i : UInt64, "" ≠ (Value.id i).display := fun i hi =>
    Nat.toDigits_ne_nil (String.ofList_injective hi.symm)
  have ha : ∀ i : UInt64, "a" ≠ (Value.id i).display :=
    ne_display_id (c := 'a') (by decide) (by decide)
  have heq := (hread flattened hflattened h).2
    (by simp [EveryName, namelessLeaf, results, resultsAll, IsUnmistaken, hempty, ha])
    (by simp [EveryName, flattened, results, resultsAll, IsUnmistaken, hempty, ha])
  simp [namelessLeaf, flattened] at heq

end Snapshot

end CursorTree
