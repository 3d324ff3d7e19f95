/-
CursorTree.Proofs.OutlineShape — an outline and a snapshot show one tree.

Both are made from a tree of cursors by a recursion of its own, one into
lines of text and one into a tree of values.  They meet in the list of nodes
(`nodes`): the outline has a line for each, indented by the depth at which the
snapshot has it, and the snapshot holds at each the value that it stands on
(`outlined_eq_entered`, `map_snd_entries`).

The lines show what the nodes tell about their costs.  A join without children
has nothing to tell, and a tree with such a join has a snapshot but no text
(`exists_outlineText?_iff`).

## Reading the shape off the indentation

Where a subtree ends is told by the first entry behind it that is not
deeper than its root.  So the statement that goes through by recursion on two
trees is about their depths followed by anything that starts no deeper
(`bare_eq_of_depths`): equal lists give equal shapes and equal rests.

A line shows its depth by its blanks, unless the name of the kind adds some.
A name may not start with a blank, then, nor break the line.  The empty name
does no harm: the one blank that follows it makes the number of blanks odd
and leaves half of it what it was.
-/
import CursorTree.Proofs.Nodes
import CursorTree.Proofs.PrintedReport
import CursorTree.Proofs.ToldCosts
import CursorTree.Snapshot

namespace CursorTree

/-! ## 1. Lines of a text -/

/-- The lines of a text in which every line is ended. -/
def textLines (text : String) : List (List Char) := (text.toList.splitOn '\n').dropLast

/-- How many blanks a line starts with. -/
def indentation (line : List Char) : Nat := (line.takeWhile (· = ' ')).length

theorem flatMap_ended (ls : List (List Char)) :
    ls.flatMap (· ++ ['\n']) = ['\n'].intercalate (ls ++ [[]]) := by
  induction ls with
  | nil => rfl
  | cons l ls ih =>
    have hne : ls ++ [[]] ≠ [] := List.append_ne_nil_of_right_ne_nil _ (List.cons_ne_nil _ _)
    rw [List.flatMap_cons, ih, List.cons_append, List.intercalate_cons_of_ne_nil hne]

theorem textLines_ofList {ls : List (List Char)} (h : ∀ l ∈ ls, '\n' ∉ l) :
    textLines (String.ofList (ls.flatMap (· ++ ['\n']))) = ls := by
  have hall : ∀ l ∈ ls ++ [[]], '\n' ∉ l := by
    intro l hl
    rcases List.mem_append.1 hl with hl | hl
    · exact h l hl
    · rw [List.mem_singleton.1 hl]
      exact List.not_mem_nil
  rw [textLines, String.toList_ofList, flatMap_ended, List.splitOn_intercalate _ hall (by simp),
    List.dropLast_concat]

theorem indentation_blanks (n : Nat) (line : List Char) :
    indentation (List.replicate n ' ' ++ line) = n + indentation line := by
  have hblanks : ∀ c ∈ List.replicate n ' ', decide (c = ' ') = true := fun c hc =>
    decide_eq_true (List.eq_of_mem_replicate hc)
  rw [indentation, List.takeWhile_append_of_pos hblanks, List.length_append,
    List.length_replicate, indentation]

/-! ## 2. The shape of a snapshot -/

namespace Snapshot

mutual

/-- The nodes of a snapshot in preorder, each with its depth and its value. -/
def entries (depth : Nat) : Snapshot → List (Nat × Option Value)
  | node r ss => (depth, r) :: entriesAll (depth + 1) ss

def entriesAll (depth : Nat) : List Snapshot → List (Nat × Option Value)
  | [] => []
  | s :: ss => s.entries depth ++ entriesAll depth ss

end

mutual

/-- The snapshot without its values, which is its shape. -/
def bare : Snapshot → Snapshot
  | node _ ss => node none (bareAll ss)

def bareAll : List Snapshot → List Snapshot
  | [] => []
  | s :: ss => s.bare :: bareAll ss

end

/-- The depths of the nodes in preorder. -/
def depths (depth : Nat) (s : Snapshot) : List Nat := (s.entries depth).map (·.1)

def depthsAll (depth : Nat) (ss : List Snapshot) : List Nat := (entriesAll depth ss).map (·.1)

theorem depths_node (depth : Nat) (r : Option Value) (ss : List Snapshot) :
    (node r ss).depths depth = depth :: depthsAll (depth + 1) ss := by
  rw [depths, entries]
  rfl

theorem depthsAll_cons (depth : Nat) (s : Snapshot) (ss : List Snapshot) :
    depthsAll depth (s :: ss) = s.depths depth ++ depthsAll depth ss := by
  rw [depthsAll, entriesAll, List.map_append]
  rfl

theorem head?_depthsAll_append {depth : Nat} (ss : List Snapshot) {rest : List Nat}
    (h : ∀ k ∈ rest.head?, k ≤ depth) : ∀ k ∈ (depthsAll depth ss ++ rest).head?, k ≤ depth := by
  cases ss with
  | nil => exact h
  | cons s ss =>
    cases s with
    | node r ts =>
      intro k hk
      rw [depthsAll_cons, depths_node] at hk
      exact Nat.le_of_eq (Option.some.inj hk).symm

mutual

theorem bare_eq_of_depths : ∀ (s t : Snapshot) {depth : Nat} {rest rest' : List Nat},
    (∀ k ∈ rest.head?, k ≤ depth) → (∀ k ∈ rest'.head?, k ≤ depth) →
      s.depths depth ++ rest = t.depths depth ++ rest' → s.bare = t.bare ∧ rest = rest'
  | node r ss, node r' ts, depth, rest, rest', hrest, hrest', h => by
      rw [depths_node, depths_node, List.cons_append, List.cons_append, List.cons.injEq] at h
      have hbelow := bareAll_eq_of_depthsAll ss ts
        (fun k hk => Nat.lt_succ_of_le (hrest k hk))
        (fun k hk => Nat.lt_succ_of_le (hrest' k hk)) h.2
      exact ⟨by rw [bare, bare, hbelow.1], hbelow.2⟩

theorem bareAll_eq_of_depthsAll : ∀ (ss ts : List Snapshot) {depth : Nat} {rest rest' : List Nat},
    (∀ k ∈ rest.head?, k < depth) → (∀ k ∈ rest'.head?, k < depth) →
      depthsAll depth ss ++ rest = depthsAll depth ts ++ rest' →
        bareAll ss = bareAll ts ∧ rest = rest'
  | [], [], _, _, _, _, _, h => ⟨rfl, h⟩
  | [], node r us :: ts, depth, rest, rest', hrest, _, h => by
      -- the rest would have to go on at the depth of a further tree
      rw [depthsAll_cons, depths_node] at h
      have hhead : depth ∈ rest.head? := congrArg List.head? h
      exact absurd (hrest depth hhead) (Nat.lt_irrefl _)
  | node r us :: ss, [], depth, rest, rest', _, hrest', h => by
      rw [depthsAll_cons, depths_node] at h
      have hhead : depth ∈ rest'.head? := congrArg List.head? h.symm
      exact absurd (hrest' depth hhead) (Nat.lt_irrefl _)
  | s :: ss, t :: ts, depth, rest, rest', hrest, hrest', h => by
      rw [depthsAll_cons, depthsAll_cons, List.append_assoc, List.append_assoc] at h
      have hle : ∀ k ∈ rest.head?, k ≤ depth := fun k hk => Nat.le_of_lt (hrest k hk)
      have hle' : ∀ k ∈ rest'.head?, k ≤ depth := fun k hk => Nat.le_of_lt (hrest' k hk)
      obtain ⟨hfirst, hothers⟩ := bare_eq_of_depths s t
        (head?_depthsAll_append ss hle) (head?_depthsAll_append ts hle') h
      obtain ⟨hall, hend⟩ := bareAll_eq_of_depthsAll ss ts hrest hrest' hothers
      exact ⟨by rw [bareAll, bareAll, hfirst, hall], hend⟩

end

/-- The depths of the nodes in preorder determine the shape. -/
theorem bare_eq_of_depths_eq {s t : Snapshot} (h : s.depths 0 = t.depths 0) : s.bare = t.bare := by
  have hnone : ∀ k ∈ ([] : List Nat).head?, k ≤ 0 := fun _ hk => absurd hk (Option.not_mem_none _)
  exact (bare_eq_of_depths s t hnone hnone (congrArg (· ++ []) h)).1

end Snapshot

namespace Cursor

/-! ## 3. One list of nodes -/

mutual

/-- A snapshot holds the values that the nodes of a tree stand on. -/
theorem map_snd_entries : ∀ (c : Cursor) (depth : Nat),
    ((Snapshot.ofCursor c).entries depth).map (·.2) = c.nodes.map last
  | empty _, _ | listing _, _ | inert _, _ | alternates _ _ _ _, _ => rfl
  | stub h e cs, depth => by
      rw [Snapshot.ofCursor, Snapshot.entries, nodes, List.map_cons, List.map_cons,
        map_snd_entriesAll cs]
      rfl
  | wrapper h i, depth => by
      have hi := map_snd_entries i (depth + 1)
      rw [Snapshot.ofCursor, Snapshot.entries, nodes, List.map_cons, List.map_cons, ← hi,
        Snapshot.entriesAll, Snapshot.entriesAll, List.append_nil]
      rfl
  | join h cs, depth => by
      rw [Snapshot.ofCursor, Snapshot.entries, nodes, List.map_cons, List.map_cons,
        map_snd_entriesAll cs]
      rfl
  | watch _ i, depth => by
      rw [Snapshot.ofCursor, nodes]
      exact map_snd_entries i depth

theorem map_snd_entriesAll : ∀ (cs : List Cursor) (depth : Nat),
    (Snapshot.entriesAll depth (Snapshot.ofCursors cs)).map (·.2) = (allNodes cs).map last
  | [], _ => rfl
  | c :: cs, depth => by
      rw [Snapshot.ofCursors, Snapshot.entriesAll, allNodes, List.map_append, List.map_append,
        map_snd_entries c depth, map_snd_entriesAll cs depth]

end

theorem length_entries (c : Cursor) (depth : Nat) :
    ((Snapshot.ofCursor c).entries depth).length = c.nodes.length := by
  simpa using congrArg List.length (map_snd_entries c depth)

/-- The nodes of a tree, each with the entry that a snapshot has for it. -/
def entered (depth : Nat) (c : Cursor) : List ((Nat × Option Value) × Cursor) :=
  ((Snapshot.ofCursor c).entries depth).zip c.nodes

def allEntered (depth : Nat) (cs : List Cursor) : List ((Nat × Option Value) × Cursor) :=
  (Snapshot.entriesAll depth (Snapshot.ofCursors cs)).zip (allNodes cs)

theorem allEntered_cons (depth : Nat) (c : Cursor) (cs : List Cursor) :
    allEntered depth (c :: cs) = c.entered depth ++ allEntered depth cs := by
  rw [allEntered, Snapshot.ofCursors, Snapshot.entriesAll, allNodes,
    List.zip_append (length_entries c depth)]
  rfl

theorem map_fst_entered (depth : Nat) (c : Cursor) :
    (c.entered depth).map (·.1) = (Snapshot.ofCursor c).entries depth :=
  List.map_fst_zip (Nat.le_of_eq (length_entries c depth))

mutual

/-- An outline goes through the nodes of a tree at the depths at which a
snapshot has them. -/
theorem outlined_eq_entered : ∀ (c : Cursor) (depth : Nat),
    c.outlined depth = (c.entered depth).map fun p => (p.1.1, p.2)
  | empty _, _ | listing _, _ | inert _, _ | alternates _ _ _ _, _ => rfl
  | stub h e cs, depth => by
      rw [outlined, outlinedAll_eq_entered cs, entered, Snapshot.ofCursor, Snapshot.entries, nodes]
      rfl
  | wrapper h i, depth => by
      rw [outlined, outlined_eq_entered i, entered, entered, Snapshot.ofCursor, Snapshot.entries,
        Snapshot.entriesAll, Snapshot.entriesAll, List.append_nil, nodes]
      rfl
  | join h cs, depth => by
      rw [outlined, outlinedAll_eq_entered cs, entered, Snapshot.ofCursor, Snapshot.entries, nodes]
      rfl
  | watch _ i, depth => by
      rw [outlined, entered, Snapshot.ofCursor, nodes]
      exact outlined_eq_entered i depth

theorem outlinedAll_eq_entered : ∀ (cs : List Cursor) (depth : Nat),
    outlinedAll depth cs = (allEntered depth cs).map fun p => (p.1.1, p.2)
  | [], _ => rfl
  | c :: cs, depth => by
      rw [outlinedAll, outlined_eq_entered c, outlinedAll_eq_entered cs, allEntered_cons,
        List.map_append]

end

/-! ## 4. Which trees have a text -/

theorem map_snd_outlined (c : Cursor) : (c.outlined 0).map (·.2) = c.nodes := by
  rw [outlined_eq_entered, List.map_map]
  exact List.map_snd_zip (Nat.le_of_eq (length_entries c 0).symm)

/-- A tree has a text with the costs that its nodes tell exactly when none of
its joins is without children. -/
theorem exists_outlineText?_iff {c : Cursor} :
    (∃ text, c.outlineText? = some text) ↔ c.Driven :=
  calc (∃ text, c.outlineText? = some text)
      ↔ ∃ entries, c.outline? = some entries := by
        simp only [outlineText?, Option.map_eq_some_iff]
        exact ⟨fun ⟨_, entries, h, _⟩ => ⟨entries, h⟩, fun ⟨entries, h⟩ => ⟨_, entries, h, rfl⟩⟩
    _ ↔ ∀ p ∈ c.outlined 0, ∃ k, p.2.cost? = some k := by
        simp [outline?, exists_mapM_eq_some_iff, OutlineEntry.ofCursor?]
    _ ↔ ∀ n ∈ c.nodes, ∃ k, n.cost? = some k := by
        rw [← map_snd_outlined, List.forall_mem_map]
    _ ↔ c.Driven := forall_exists_cost?_iff

/-- Where the sums fit a word, too, it is the text with the costs by which the
tree is planned. -/
theorem outlineText?_eq_some_outlineText {c : Cursor} (hc : c.Driven) (hfit : c.SumsFit) :
    c.outlineText? = some c.outlineText := by
  have hentries : c.outline? = some c.outline := by
    refine mapM_eq_some_map fun p hp => ?_
    have hnode : p.2 ∈ c.nodes := map_snd_outlined c ▸ List.mem_map_of_mem hp
    have hk := cost?_eq_some_cost hc hfit p.2 hnode
    rw [OutlineEntry.ofCursor?, hk]
    rfl
  rw [outlineText?, hentries]
  rfl

/-! ## 5. What a line says -/

/-- What an outline says about a node of some costs. -/
def report (n : Cursor) (k : Cost) : String :=
  CommandLine.nodeLine n.kind n.uid.toNat k.size.toNat k.nextCost.toNat k.checkCost.toNat
    k.scan.toNat

/-- A line about a node at a depth. -/
structure LineAbout (depth : Nat) (n : Cursor) (line : List Char) : Prop where
  /-- Behind the indentation stands what the node tells. -/
  report : ∃ k, n.cost? = some k ∧ line = List.replicate (2 * depth) ' ' ++ (n.report k).toList
  /-- A name that is missing shows as one more blank. -/
  blanks : indentation line = 2 * depth + if n.kind = "" then 1 else 0
  unbroken : '\n' ∉ line

/-- No node has a name that breaks its line or adds to its indentation. -/
def PlainlyNamed (c : Cursor) : Prop :=
  ∀ n ∈ c.nodes, '\n' ∉ n.kind.toList ∧ n.kind.toList.head? ≠ some ' '

theorem newline_not_mem_toDigits (n : Nat) : '\n' ∉ Nat.toDigits 10 n := fun h =>
  absurd (Nat.isDigit_of_mem_toDigits (by decide) (by decide) h) (by decide)

/-- Behind the name of the kind a report has one blank and no further line. -/
theorem toList_report (n : Cursor) (k : Cost) :
    ∃ rest, (n.report k).toList = n.kind.toList ++ ' ' :: '#' :: rest ∧ '\n' ∉ rest := by
  refine ⟨Nat.toDigits 10 n.uid.toNat ++ " (size: ".toList ++
    Nat.toDigits 10 k.size.toNat ++ ", next: ".toList ++
    Nat.toDigits 10 k.nextCost.toNat ++ ", check: ".toList ++
    Nat.toDigits 10 k.checkCost.toNat ++ ", scan: ".toList ++
    Nat.toDigits 10 k.scan.toNat ++ [')'], ?_, ?_⟩
  · unfold report CommandLine.nodeLine
    simp [String.toList_append, toString]
  · simp [newline_not_mem_toDigits]

theorem newline_not_mem_report {n : Cursor} (h : '\n' ∉ n.kind.toList) (k : Cost) :
    '\n' ∉ (n.report k).toList := by
  obtain ⟨rest, hreport, hrest⟩ := n.toList_report k
  simp [hreport, h, hrest]

theorem newline_not_mem_outlineHeader (c : Cursor) : '\n' ∉ c.outlineHeader.toList := by
  unfold outlineHeader
  simp only [CommandLine.toString_word]
  split <;> simp [String.toList_append, newline_not_mem_toDigits, toString]

/-- A report starts with a blank only where there is no name. -/
theorem indentation_report {n : Cursor} (h : n.kind.toList.head? ≠ some ' ') (k : Cost) :
    indentation (n.report k).toList = if n.kind = "" then 1 else 0 := by
  obtain ⟨rest, hreport, -⟩ := n.toList_report k
  rw [hreport, indentation]
  split
  next hnone => simp [hnone]
  next hname =>
    cases hkind : n.kind.toList with
    | nil => exact absurd (String.toList_eq_nil_iff.1 hkind) hname
    | cons a as =>
      have ha : a ≠ ' ' := fun ha => h (by rw [hkind, ha, List.head?_cons])
      simp [ha]

theorem lineAbout_of_entry {depth : Nat} {n : Cursor} {e : OutlineEntry}
    (he : OutlineEntry.ofCursor? depth n = some e)
    (hname : '\n' ∉ n.kind.toList ∧ n.kind.toList.head? ≠ some ' ') :
    LineAbout depth n e.line := by
  obtain ⟨k, hk, rfl⟩ := Option.map_eq_some_iff.1 he
  have hline : OutlineEntry.line ⟨depth, n.kind, n.uid, k⟩ =
      List.replicate (2 * depth) ' ' ++ (n.report k).toList := by
    rw [OutlineEntry.line, CommandLine.label_eq_nodeLine, report]
  refine ⟨⟨k, hk, hline⟩, ?_, ?_⟩
  · rw [hline, indentation_blanks, indentation_report hname.2]
  · rw [hline]
    simp [newline_not_mem_report hname.1]

/-! ## 6. The lines of a text -/

/-- The lines about the nodes of a tree, one for each entry of its snapshot. -/
def LinesAbout (c : Cursor) (lines : List (List Char)) : Prop :=
  List.Forall₂ (fun p line => LineAbout p.1.1 p.2 line)
    (((Snapshot.ofCursor c).entries 0).zip c.nodes) lines

theorem LinesAbout.unbroken {c : Cursor} {lines : List (List Char)} (h : c.LinesAbout lines) :
    ∀ line ∈ lines, '\n' ∉ line := by
  have hlines : List.Forall₂ (fun line p => '\n' ∉ line ∧ LineAbout p.1.1 p.2 line) lines
      (((Snapshot.ofCursor c).entries 0).zip c.nodes) :=
    (List.Forall₂.imp (fun p line hline => ⟨hline.unbroken, hline⟩) h).flip
  exact ((List.forall₂_and_left _ _).1 hlines).1

theorem LinesAbout.indentations {c : Cursor} {lines : List (List Char)} (h : c.LinesAbout lines) :
    lines.map indentation =
      (c.entered 0).map fun p => 2 * p.1.1 + if p.2.kind = "" then 1 else 0 := by
  have hblanks : List.Forall₂
      (fun line p => indentation line = 2 * p.1.1 + if p.2.kind = "" then 1 else 0) lines
      (c.entered 0) := (List.Forall₂.imp (fun p line hline => hline.blanks) h).flip
  have hmaps := List.forall₂_map_left_iff.2 (List.forall₂_map_right_iff.2 hblanks)
  rwa [List.forall₂_eq_eq_eq] at hmaps

/-- Half of its blanks are the depth of a line. -/
theorem LinesAbout.halved_indentations {c : Cursor} {lines : List (List Char)}
    (h : c.LinesAbout lines) :
    (lines.map indentation).map (· / 2) = (Snapshot.ofCursor c).depths 0 := by
  rw [h.indentations, Snapshot.depths, ← map_fst_entered, List.map_map, List.map_map]
  refine List.map_congr_left fun p _ => ?_
  simp only [Function.comp_apply]
  split <;> omega

/-- A text has a header and the lines about the nodes. -/
theorem lines_of_outlineText? {c : Cursor} (hc : c.PlainlyNamed) {text : String}
    (h : c.outlineText? = some text) :
    ∃ lines, c.LinesAbout lines ∧
      text = String.ofList ((c.outlineHeader.toList :: lines).flatMap (· ++ ['\n'])) ∧
      textLines text = c.outlineHeader.toList :: lines := by
  obtain ⟨entries, hentries, rfl⟩ := Option.map_eq_some_iff.1 h
  have hall := mapM_eq_some_iff.1 hentries
  rw [outlined_eq_entered, List.forall₂_map_left_iff] at hall
  have hnames : ∀ p ∈ c.entered 0, '\n' ∉ p.2.kind.toList ∧ p.2.kind.toList.head? ≠ some ' ' :=
    fun p hp => hc p.2 (List.of_mem_zip hp).2
  have hlines : c.LinesAbout (entries.map OutlineEntry.line) :=
    List.forall₂_map_right_iff.2 (((List.forall₂_and_left _ _).2 ⟨hnames, hall⟩).imp
      fun p e hpe => lineAbout_of_entry hpe.2 hpe.1)
  refine ⟨_, hlines, rfl, textLines_ofList fun l hl => ?_⟩
  rcases List.mem_cons.1 hl with rfl | hl
  · exact c.newline_not_mem_outlineHeader
  · exact hlines.unbroken l hl

/-- Plainly named trees with equally indented outlines have one shape. -/
theorem bare_eq_of_indentations {c d : Cursor} (hc : c.PlainlyNamed) (hd : d.PlainlyNamed)
    {text text' : String} (htext : c.outlineText? = some text)
    (htext' : d.outlineText? = some text')
    (h : (textLines text).map indentation = (textLines text').map indentation) :
    (Snapshot.ofCursor c).bare = (Snapshot.ofCursor d).bare := by
  obtain ⟨lines, hlines, -, hall⟩ := lines_of_outlineText? hc htext
  obtain ⟨lines', hlines', -, hall'⟩ := lines_of_outlineText? hd htext'
  rw [hall, hall', List.map_cons, List.map_cons] at h
  refine Snapshot.bare_eq_of_depths_eq ?_
  rw [← hlines.halved_indentations, ← hlines'.halved_indentations, List.tail_eq_of_cons_eq h]

/-! ## 7. One tree -/

/-- A plainly named tree in which every join has a child has an outline.  It
is a header and a line for each entry of a snapshot, in order, about the node
that the entry is about; and the indentations alone determine the shape of
the snapshot. -/
theorem outline_mirrors_snapshot (c : Cursor) (hc : c.PlainlyNamed) (hdriven : c.Driven) :
    ∃ text lines, c.outlineText? = some text ∧
      text = String.ofList ((c.outlineHeader.toList :: lines).flatMap (· ++ ['\n'])) ∧
      textLines text = c.outlineHeader.toList :: lines ∧
      List.Forall₂ (fun p line => LineAbout p.1.1 p.2 line)
        (((Snapshot.ofCursor c).entries 0).zip c.nodes) lines ∧
      ((Snapshot.ofCursor c).entries 0).map (·.2) = c.nodes.map last ∧
      ∀ (d : Cursor) (text' : String), d.PlainlyNamed → d.outlineText? = some text' →
        (textLines text).map indentation = (textLines text').map indentation →
          (Snapshot.ofCursor c).bare = (Snapshot.ofCursor d).bare := by
  obtain ⟨text, htext⟩ := exists_outlineText?_iff.2 hdriven
  obtain ⟨lines, hlines, hended, hall⟩ := lines_of_outlineText? hc htext
  exact ⟨text, lines, htext, hended, hall, hlines, map_snd_entries c 0,
    fun d text' hd htext' => bare_eq_of_indentations hc hd htext htext'⟩

/-- A nameless stub over two leaves, in front of a watched list. -/
def namelessTree : Cursor :=
  join { uid := 5 }
    [stub { uid := 3 } ⟨"", 9, false, ⟨4, 2, 9⟩⟩
        [listing ⟨{ uid := 0, last := some (.id 7) }, [.id 7], 1⟩, inert { uid := 1 }],
      watch "right" (listing ⟨{ uid := 4 }, [], 0⟩)]

/-- The same shape in other kinds. -/
def disguisedTree : Cursor :=
  stub { uid := 8 } ⟨"and", 1, true, ⟨1, 1, 1⟩⟩
    [stub { uid := 2 } ⟨"", 0, true, ⟨0, 0, 0⟩⟩ [empty { uid := 0 }, inert { uid := 1 }],
      alternates { uid := 7 } ⟨{ uid := 6 }, [], 0⟩ 2 0]

theorem namelessTree_mirrored :
    namelessTree.PlainlyNamed ∧ namelessTree.Driven ∧
      ∃ text, namelessTree.outlineText? = some text ∧
        (textLines text).map indentation = [0, 0, 3, 4, 4, 2] ∧
        (Snapshot.ofCursor namelessTree).bare = (Snapshot.ofCursor disguisedTree).bare := by
  have hc : namelessTree.PlainlyNamed := by
    simp [namelessTree, PlainlyNamed, nodes, allNodes, kind]
  have hd : disguisedTree.PlainlyNamed := by
    simp [disguisedTree, PlainlyNamed, nodes, allNodes, kind]
  have hcdriven : namelessTree.Driven := by
    simp [namelessTree, Driven, nodes, allNodes]
  have hddriven : disguisedTree.Driven := by
    simp [disguisedTree, Driven, nodes, allNodes]
  obtain ⟨text, lines, htext, -, hall, hlines, -, hshape⟩ :=
    outline_mirrors_snapshot namelessTree hc hcdriven
  obtain ⟨text', htext'⟩ := exists_outlineText?_iff.2 hddriven
  obtain ⟨lines', hlines', -, hall'⟩ := lines_of_outlineText? hd htext'
  have hblanks : (textLines text).map indentation = [0, 0, 3, 4, 4, 2] := by
    rw [hall, List.map_cons, LinesAbout.indentations hlines]
    decide
  refine ⟨hc, hcdriven, text, htext, hblanks, hshape disguisedTree text' hd htext' ?_⟩
  rw [hblanks, hall', List.map_cons, hlines'.indentations]
  decide

/-- A join without children has no outline, and the line about a node without
a name is indented by one blank more than twice its depth. -/
theorem limits_of_outline_mirror :
    (join { uid := 0 } []).PlainlyNamed ∧ (join { uid := 0 } []).outlineText? = none ∧
      (stub { uid := 0 } ⟨"", 1, true, ⟨1, 2, 3⟩⟩ []).PlainlyNamed ∧
      (stub { uid := 0 } ⟨"", 1, true, ⟨1, 2, 3⟩⟩ []).outlineText? =
        some "Iterator tree (size: 1):\n #0 (size: 1, next: 2, check: 3, scan: 2)\n" := by
  refine ⟨?_, rfl, ?_, ?_⟩
  · simp [PlainlyNamed, nodes, allNodes, kind]
  · simp [PlainlyNamed, nodes, allNodes, kind]
  · decide

end Cursor

end CursorTree
