/-
CursorTree.Proofs.RowBindings — what the row of a tree binds.

After `next` has answered a value, or a test has held, every node of the
tree stands on that value.  Its row then depends on two things only, the
value and the list of registries in preorder.  `Binds` says how, without
mentioning the order in which tags are written: a row has the tags that
some registry has, and each is bound as the last registry that has it says,
to a fixed value where there is one and otherwise to the value stood on.

Registries outlast a traversal, so all rows of one evaluation have the same
tags, and these are the columns of its table.

A cursor with alternates numbers the bindings of a value under a tag that
no registry has.  It is the one kind that is left out here; the others
need no mention, since a tree that can succeed has only lists and joins in
it.
-/
import CursorTree.Collect
import CursorTree.Proofs.Columns
import CursorTree.Proofs.Enumeration
import CursorTree.Proofs.Nodes

namespace CursorTree

/-! ## 1. Registries written one after the other -/

namespace Tags

/-- A registry has a name, as a dynamic tag or as a fixed one. -/
def Has (t : Tags) (n : String) : Prop := n ∈ t.dynamic ∨ n ∈ t.fixed.keys

/-- What a registry binds one of its names to. -/
def valueOf (t : Tags) (current : Value) (n : String) : Value := (t.fixed.get? n).getD current

theorem get?_write_of_has {t : Tags} {n : String} (h : t.Has n) (v : Value) (row : Row) :
    (t.write (some v) row).get? n = some (some (t.valueOf v n)) := by
  rw [get?_write, valueOf]
  cases hfixed : t.fixed.get? n with
  | some x => rfl
  | none =>
    have hdynamic : n ∈ t.dynamic := by
      rcases h with h | h
      · exact h
      · rw [Dict.mem_keys, hfixed] at h
        exact absurd h Bool.false_ne_true
    rw [if_pos hdynamic]
    rfl

theorem get?_write_of_not_has {t : Tags} {n : String} (h : ¬ t.Has n) (v : Value) (row : Row) :
    (t.write (some v) row).get? n = row.get? n := by
  have hdynamic : n ∉ t.dynamic := fun hn => h (.inl hn)
  have hfixed : t.fixed.get? n = none := by
    rw [← Option.not_isSome_iff_eq_none, ← Dict.mem_keys]
    exact fun hn => h (.inr hn)
  rw [get?_write, hfixed, if_neg hdynamic]
  rfl

/-- A registry brings its names into a row, with a current value or without. -/
theorem mem_keys_write (t : Tags) (current : Option Value) (row : Row) (n : String) :
    n ∈ (t.write current row).keys ↔ t.Has n ∨ n ∈ row.keys := by
  rw [Has, Dict.mem_keys, Dict.mem_keys, Dict.mem_keys, get?_write]
  by_cases hdynamic : n ∈ t.dynamic <;> simp [hdynamic]

/-- Some registries written into a row, all for one value. -/
def writeEach (v : Value) (ts : List Tags) (row : Row) : Row :=
  ts.foldl (fun r t => t.write (some v) r) row

theorem get?_writeEach_of_none {v : Value} {ts : List Tags} {n : String}
    (h : ∀ t ∈ ts, ¬ t.Has n) (row : Row) : (writeEach v ts row).get? n = row.get? n := by
  induction ts generalizing row with
  | nil => rfl
  | cons t ts ih =>
    refine (ih (fun u hu => h u (List.mem_cons_of_mem _ hu)) _).trans ?_
    exact get?_write_of_not_has (h t List.mem_cons_self) v row

theorem mem_keys_writeEach {v : Value} {ts : List Tags} {n : String} (row : Row) :
    n ∈ (writeEach v ts row).keys ↔ (∃ t ∈ ts, t.Has n) ∨ n ∈ row.keys := by
  induction ts generalizing row with
  | nil => simp [writeEach]
  | cons t ts ih =>
    refine (ih (t.write (some v) row)).trans ?_
    simp only [mem_keys_write, List.mem_cons, exists_eq_or_imp, or_left_comm, or_assoc]

end Tags

/-- A row has exactly the tags of some registries, each bound by the last
registry that has it. -/
structure Binds (v : Value) (ts : List Tags) (row : Row) : Prop where
  mem_keys : ∀ n, n ∈ row.keys ↔ ∃ t ∈ ts, t.Has n
  last_wins : ∀ (front : List Tags) (t : Tags) (back : List Tags) (n : String),
    ts = front ++ t :: back → t.Has n → (∀ u ∈ back, ¬ u.Has n) →
      row.get? n = some (some (t.valueOf v n))

theorem binds_writeEach (v : Value) (ts : List Tags) :
    Binds v ts (Tags.writeEach v ts .empty) := by
  constructor
  · intro n
    exact (Tags.mem_keys_writeEach .empty).trans (or_iff_left List.not_mem_nil)
  · rintro front t back n rfl ht hback
    rw [Tags.writeEach, List.foldl_append, List.foldl_cons]
    exact (Tags.get?_writeEach_of_none hback _).trans (Tags.get?_write_of_has ht v _)

namespace Cursor

/-! ## 2. The row of a tree -/

def IsAlternates : Cursor → Prop
  | alternates _ _ _ _ => True
  | _ => False

/-- Trees whose rows have no tags but those of their registries. -/
def WithoutAlternates (c : Cursor) : Prop := ∀ n ∈ c.nodes, ¬ n.IsAlternates

theorem isAlternates_rewound (n : Cursor) : n.rewound.IsAlternates = n.IsAlternates := by
  cases n <;> rfl

theorem withoutAlternates_of_rewound_eq {c d : Cursor} (h : c.rewound = d.rewound)
    (hd : d.WithoutAlternates) : c.WithoutAlternates := by
  intro n hn
  have hmem : n.IsAlternates ∈ c.nodes.map IsAlternates := List.mem_map_of_mem hn
  rw [map_nodes_eq_of_rewound_eq isAlternates_rewound h] at hmem
  obtain ⟨m, hm, heq⟩ := List.mem_map.1 hmem
  exact heq ▸ hd m hm

mutual

/-- Every node writes its registry for the value it stands on itself. -/
theorem writeTags_eq_foldl : ∀ c : Cursor, c.WithoutAlternates → ∀ row : Row,
    (c.writeTags row).val = c.nodes.foldl (fun r n => n.tags.write n.last r) row
  | empty _, _, _ | listing _, _, _ | inert _, _, _ => rfl
  | alternates h l n k, hc, _ => absurd trivial (hc _ (List.mem_singleton_self _))
  | stub h e cs, hc, row => by
      rw [writeTags, nodes, List.foldl_cons]
      exact writeAll_eq_foldl cs (fun n hn => hc n (List.mem_cons_of_mem _ hn)) _
  | wrapper h i, hc, row => by
      rw [writeTags, nodes, List.foldl_cons]
      exact writeTags_eq_foldl i (fun n hn => hc n (List.mem_cons_of_mem _ hn)) _
  | join h cs, hc, row => by
      rw [writeTags, nodes, List.foldl_cons]
      exact writeAll_eq_foldl cs (fun n hn => hc n (List.mem_cons_of_mem _ hn)) _
  | watch _ i, hc, row => by
      rw [writeTags, nodes, Traced.val_bind]
      exact writeTags_eq_foldl i hc row

theorem writeAll_eq_foldl : ∀ cs : List Cursor, (∀ n ∈ allNodes cs, ¬ n.IsAlternates) →
    ∀ row : Row, (writeAll row cs).val = (allNodes cs).foldl (fun r n => n.tags.write n.last r) row
  | [], _, _ => rfl
  | c :: cs, hcs, row => by
      have hhead := writeTags_eq_foldl c (fun n hn => hcs n (List.mem_append_left _ hn)) row
      have htail := writeAll_eq_foldl cs (fun n hn => hcs n (List.mem_append_right _ hn))
      rw [writeAll, allNodes, Traced.val_bind, List.foldl_append, htail, hhead]

end

mutual

theorem last_of_standsOn {v : Value} : ∀ c : Cursor, c.StandsOn v → ∀ n ∈ c.nodes, n.last = some v
  | listing l, hc, n, hn => by
      rw [List.mem_singleton.1 hn]
      exact hc
  | alternates h l k j, hc, n, hn => by
      rw [List.mem_singleton.1 hn]
      exact hc.1
  | join h cs, hc, n, hn => by
      rw [nodes, List.mem_cons] at hn
      rcases hn with rfl | hn
      · exact hc.1
      · exact last_of_standAllOn cs hc.2 n hn
  | watch _ i, hc, n, hn => last_of_standsOn i hc n hn

theorem last_of_standAllOn {v : Value} :
    ∀ cs : List Cursor, StandAllOn v cs → ∀ n ∈ allNodes cs, n.last = some v
  | [], _, _, hn => absurd hn List.not_mem_nil
  | c :: cs, hcs, n, hn => by
      rcases List.mem_append.1 hn with hn | hn
      · exact last_of_standsOn c hcs.1 n hn
      · exact last_of_standAllOn cs hcs.2 n hn

end

theorem foldl_write_eq_writeEach {v : Value} {ns : List Cursor} (h : ∀ n ∈ ns, n.last = some v)
    (row : Row) :
    ns.foldl (fun r n => n.tags.write n.last r) row = Tags.writeEach v (ns.map tags) row := by
  induction ns generalizing row with
  | nil => rfl
  | cons n ns ih =>
    rw [List.foldl_cons, h n List.mem_cons_self]
    exact ih (fun m hm => h m (List.mem_cons_of_mem _ hm)) _

/-- The row of a tree that stands on a value throughout. -/
theorem bindings_eq_writeEach {c : Cursor} {v : Value} (hc : c.WithoutAlternates)
    (hv : c.StandsOn v) : c.bindings.val = Tags.writeEach v c.registries .empty :=
  (writeTags_eq_foldl c hc .empty).trans
    (foldl_write_eq_writeEach (last_of_standsOn c hv) .empty)

theorem binds_bindings {c : Cursor} {v : Value} (hc : c.WithoutAlternates) (hv : c.StandsOn v) :
    Binds v c.registries c.bindings.val := by
  rw [bindings_eq_writeEach hc hv]
  exact binds_writeEach v c.registries

/-! ## 3. The rows of an evaluation -/

theorem nextResult_of_withoutAlternates :
    ∀ c : Cursor, c.WithoutAlternates → c.nextResult.val = (false, c)
  | empty _, _ | listing _, _ | inert _, _ | stub _ _ _, _ | wrapper _ _, _ | join _ _, _ => rfl
  | alternates h l n k, hc => absurd trivial (hc _ (List.mem_singleton_self _))
  | watch w i, hc => by
      simp only [nextResult, Traced.val_bind, Traced.val_pure,
        nextResult_of_withoutAlternates i hc]

theorem advance_of_withoutAlternates {c : Cursor} (hc : c.WithoutAlternates) :
    c.advance.val = (c.next.val.1.isSome, c.next.val.2) := by
  simp only [advance, Traced.val_bind, nextResult_of_withoutAlternates c hc]
  rfl

/-- The rows that a tree gathers, from a value on, bind its registries. -/
theorem gather_binds (moves : Nat) : ∀ (room : Option Nat) (c : Cursor) (v : Value),
    c.WithoutAlternates → c.StandsOn v →
      ∀ row ∈ (c.gather moves room).val.1, ∃ w, Binds w c.registries row := by
  induction moves with
  | zero =>
    intro room c v hc hv row hrow
    have hone : row ∈ [c.bindings.val] := by
      rw [gather, Traced.val_bind] at hrow
      split at hrow <;> exact hrow
    rw [List.mem_singleton.1 hone]
    exact ⟨v, binds_bindings hc hv⟩
  | succ moves ih =>
    intro room c v hc hv row hrow
    have hstep := next_spec c
    rw [gather, Traced.val_bind] at hrow
    split at hrow
    next =>
      rw [List.mem_singleton.1 hrow]
      exact ⟨v, binds_bindings hc hv⟩
    next =>
      simp only [Traced.val_bind, advance_of_withoutAlternates hc] at hrow
      cases hnext : c.next.val.1 with
      | none =>
        simp only [hnext, Option.isSome_none, Bool.false_eq_true, if_false, Traced.val_pure,
          List.mem_singleton] at hrow
        rw [hrow]
        exact ⟨v, binds_bindings hc hv⟩
      | some w =>
        simp only [hnext, Option.isSome_some, if_true, Traced.val_bind, Traced.val_pure,
          List.mem_cons] at hrow
        rcases hrow with rfl | hrow
        · exact ⟨v, binds_bindings hc hv⟩
        · rw [← registries_eq_of_rewound_eq hstep.frame]
          exact ih _ _ w (withoutAlternates_of_rewound_eq hstep.frame hc) (hstep.stands w hnext)
            row hrow

theorem rows_bind {c : Cursor} (hc : c.WithoutAlternates) (limit : Option Nat) :
    ∀ row ∈ (c.rows limit).val.1, ∃ v, Binds v c.registries row := by
  intro row hrow
  have hstep := next_spec c
  unfold rows at hrow
  split at hrow
  next => exact absurd hrow List.not_mem_nil
  next =>
    rw [Traced.val_bind] at hrow
    cases hnext : c.next.val with
    | mk v d =>
      rw [hnext] at hrow hstep
      cases v with
      | none => exact absurd hrow List.not_mem_nil
      | some v =>
        rw [← registries_eq_of_rewound_eq hstep.frame]
        exact gather_binds _ limit d v (withoutAlternates_of_rewound_eq hstep.frame hc)
          (hstep.stands v rfl) row hrow

/-- What a success on a value makes of a tree. -/
structure Confirmed (v : Value) (c d : Cursor) : Prop where
  standing : ∀ n ∈ d.nodes, n.last = some v
  registries : d.registries = c.registries
  row : Binds v d.registries d.bindings.val

theorem confirmed_of_standsOn {c d : Cursor} {v : Value} (hc : c.WithoutAlternates)
    (frame : d.rewound = c.rewound) (hv : d.StandsOn v) : Confirmed v c d where
  standing := last_of_standsOn d hv
  registries := registries_eq_of_rewound_eq frame
  row := binds_bindings (withoutAlternates_of_rewound_eq frame hc) hv

/-- A value that is answered, or a test that holds, confirms the whole tree
on the value and determines its row.  All rows of an evaluation, up to any
limit, have the tags of the registries, which are the columns of its table. -/
theorem success_determines_row (c : Cursor) (hc : c.WithoutAlternates) :
    (∀ v, c.next.val.1 = some v → Confirmed v c c.next.val.2) ∧
      (∀ v, (c.check v).val.1 = true → Confirmed v c (c.check v).val.2) ∧
      ∀ limit : Option Nat, ∀ row ∈ (c.collect limit).val.1.rows,
        (∃ v, Binds v c.registries row) ∧ (c.collect limit).val.1.columns = row.keys := by
  refine ⟨fun v hv => ?_, fun v hv => ?_, fun limit => ?_⟩
  · have hstep := next_spec c
    exact confirmed_of_standsOn hc hstep.frame (hstep.stands v hv)
  · exact confirmed_of_standsOn hc (rewound_check v c) ((check_spec v c).stands hv)
  · have hcolumns := Table.columns_pushAll (t := {}) Table.columnsOf_empty (c.rows limit).val.1
    have hrows := rows_bind hc limit
    rw [(collect_spec limit c).1]
    rw [Table.rows_pushAll, List.nil_append] at hcolumns ⊢
    intro row hrow
    refine ⟨hrows row hrow, ?_⟩
    refine Table.columns_eq_keys hcolumns (fun n => ∃ t ∈ c.registries, t.Has n) ?_ row hrow
    intro r hr n
    obtain ⟨v, hbinds⟩ := hrows r hr
    exact hbinds.mem_keys n

/-- A traversal in progress in which three nodes have a tag in common.  The
next candidate is refused one level below before the one behind it is
taken. -/
def sharedTags : Cursor :=
  join { uid := 4, tags := Tags.empty.add "x" }
    [listing ⟨{ uid := 0, last := some (.id 9), tags := Tags.empty.addFixed "x" (.name "n") },
        [.id 9, .id 2, .id 3], 1⟩,
      join { uid := 3, tags := (Tags.empty.add "y").addFixed "y" (.id 7) }
        [listing ⟨{ uid := 1 }, [.id 3, .id 9], 0⟩,
          listing ⟨{ uid := 2, tags := (Tags.empty.add "x").add "z" }, [.id 9, .id 3, .id 5], 0⟩]]

theorem sharedTags_row :
    sharedTags.WithoutAlternates ∧ sharedTags.next.val.1 = some (.id 3) ∧
      Confirmed (.id 3) sharedTags sharedTags.next.val.2 ∧
      (sharedTags.check (.id 9)).val.1 = true ∧
      Confirmed (.id 9) sharedTags (sharedTags.check (.id 9)).val.2 ∧
      ∃ row ∈ (sharedTags.collect none).val.1.rows,
        (∃ v, Binds v sharedTags.registries row) ∧
          (sharedTags.collect none).val.1.columns = row.keys := by
  have hc : sharedTags.WithoutAlternates := by
    simp [sharedTags, WithoutAlternates, nodes, allNodes, IsAlternates]
  obtain ⟨hnext, hcheck, hrows⟩ := success_determines_row sharedTags hc
  obtain ⟨row, hrow⟩ : ∃ row, row ∈ (sharedTags.collect none).val.1.rows :=
    ⟨_, List.mem_of_getElem? (i := 0) rfl⟩
  exact ⟨hc, rfl, hnext _ rfl, rfl, hcheck _ rfl, row, hrow, hrows none row hrow⟩

end Cursor

end CursorTree
