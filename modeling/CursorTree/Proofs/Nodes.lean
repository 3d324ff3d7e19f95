/-
CursorTree.Proofs.Nodes — the nodes of a tree as a list.

`nodes` lists the cursors of a tree in preorder: a parent before what is
below it, children from left to right.  Statements about every node of a
tree, or about the last one with some property, are statements about that
list.  A watch is the cursor inside it and no node of its own.

Traversing a tree moves its nodes and leaves the list of them in shape, so
what rewinding a single node does not change is listed alike before and
after a traversal (`map_nodes_eq_of_rewound_eq`).
-/
import CursorTree.Proofs.Rewinding

namespace CursorTree.Cursor

mutual

/-- The nodes of a tree in preorder. -/
def nodes : Cursor → List Cursor
  | stub h e cs => stub h e cs :: allNodes cs
  | wrapper h i => wrapper h i :: i.nodes
  | join h cs => join h cs :: allNodes cs
  | watch _ i => i.nodes
  | empty h => [empty h]
  | listing l => [listing l]
  | inert h => [inert h]
  | alternates h l n k => [alternates h l n k]

def allNodes : List Cursor → List Cursor
  | [] => []
  | c :: cs => c.nodes ++ allNodes cs

end

/-- The tag registries of the nodes of a tree. -/
def registries (c : Cursor) : List Tags := c.nodes.map tags

theorem nodes_ne_nil : ∀ c : Cursor, c.nodes ≠ []
  | empty _ | listing _ | inert _ | alternates _ _ _ _ => List.cons_ne_nil _ _
  | stub _ _ _ | wrapper _ _ | join _ _ => by
      rw [nodes]
      exact List.cons_ne_nil _ _
  | watch _ i => by
      rw [nodes]
      exact nodes_ne_nil i

/-! ## The nodes of a rewound tree

Nodes below a stub or a wrapper are not rewound, the others are; either way
a function that rewinding a node does not change sees no difference. -/

mutual

theorem map_nodes_rewound {α : Type} {f : Cursor → α} (hf : ∀ n : Cursor, f n.rewound = f n) :
    ∀ c : Cursor, c.rewound.nodes.map f = c.nodes.map f
  | empty _ | inert _ | stub _ _ _ | wrapper _ _ => rfl
  | listing l => congrArg (· :: []) (hf (listing l))
  | alternates h l n k => congrArg (· :: []) (hf (alternates h l n k))
  | join h cs => by
      have hroot := hf (join h cs)
      rw [rewound] at hroot
      rw [rewound, nodes, nodes, List.map_cons, List.map_cons, map_allNodes_rewound hf cs, hroot]
  | watch w i => by
      rw [rewound, nodes, nodes]
      exact map_nodes_rewound hf i

theorem map_allNodes_rewound {α : Type} {f : Cursor → α} (hf : ∀ n : Cursor, f n.rewound = f n) :
    ∀ cs : List Cursor, (allNodes (rewoundAll cs)).map f = (allNodes cs).map f
  | [] => rfl
  | c :: cs => by
      rw [rewoundAll, allNodes, allNodes, List.map_append, List.map_append,
        map_nodes_rewound hf c, map_allNodes_rewound hf cs]

end

theorem map_nodes_eq_of_rewound_eq {α : Type} {f : Cursor → α}
    (hf : ∀ n : Cursor, f n.rewound = f n) {c d : Cursor} (h : c.rewound = d.rewound) :
    c.nodes.map f = d.nodes.map f := by
  rw [← map_nodes_rewound hf c, h, map_nodes_rewound hf d]

theorem tags_rewound (c : Cursor) : c.rewound.tags = c.tags := by
  fun_induction head c with
  | case1 | case2 | case3 | case4 | case5 | case6 | case7 => rfl
  | case8 _ i ih => exact ih

/-- A traversal changes no registry. -/
theorem registries_eq_of_rewound_eq {c d : Cursor} (h : c.rewound = d.rewound) :
    c.registries = d.registries :=
  map_nodes_eq_of_rewound_eq tags_rewound h

end CursorTree.Cursor
