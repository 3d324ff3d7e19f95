/-
CursorTree.Proofs.Copying — a copy is the source after a reset, under other
names.

Copying reads nothing of what a traversal changes (`copying_rewound`), so a
copy taken at any moment is a copy of the untraversed tree.  Of that one it
has everything but the identities and the hints (`yields_copying_same`): the
tags too, although a list and a join register them one by one in a registry
without tags, because no dynamic tag is registered twice
(`Tags.empty_merge`).

What a tree answers depends neither on identities nor on hints nor on tags
(`ahead_mapHeads`, `holds_mapHeads`), and so a copy and the reset source
answer alike, however they are asked (`copy_renews`).
-/
import CursorTree.Proofs.Identities
import CursorTree.Proofs.Interleaving
import CursorTree.Session.Command

namespace CursorTree

/-- The head without its identity. -/
def Head.unnamed (h : Head) : Head := { h with uid := 0 }

/-- The head with the hint of a new cursor. -/
def Head.hinting (h : Head) : Head := { h with canNext := true }

namespace Cursor

mutual

/-- The tree with every head changed. -/
def mapHeads (f : Head → Head) : Cursor → Cursor
  | empty h => empty (f h)
  | listing l => listing { l with head := f l.head }
  | inert h => inert (f h)
  | stub h e cs => stub (f h) e (mapAllHeads f cs)
  | wrapper h i => wrapper (f h) (i.mapHeads f)
  | alternates h l n k => alternates (f h) { l with head := f l.head } n k
  | join h cs => join (f h) (mapAllHeads f cs)
  | watch w i => watch w (i.mapHeads f)

def mapAllHeads (f : Head → Head) : List Cursor → List Cursor
  | [] => []
  | c :: cs => c.mapHeads f :: mapAllHeads f cs

end

/-- The tree without its identities. -/
def nameless (c : Cursor) : Cursor := c.mapHeads Head.unnamed

/-- The tree with the hints of new cursors. -/
def hinting (c : Cursor) : Cursor := c.mapHeads Head.hinting

/-- Trees of which no hint was taken back. -/
def Hinted (c : Cursor) : Prop := ∀ n ∈ c.nodes, n.head.canNext = true

/-- What a copy and the supply are after a tree was copied. -/
structure Renewed (source : Cursor) (s : Supply) (d : Cursor) (after : Supply) : Prop where
  /-- Up to identities the copy is the source after a reset, with the hints of
  new cursors. -/
  same : d.nameless = source.reset.val.hinting.nameless
  /-- Where the source has these hints the copy is the source after a reset. -/
  same_of_hinted : source.Hinted → d.nameless = source.reset.val.nameless
  untraversed : d.Untraversed
  hinted : d.Hinted
  /-- The identities are consecutive, from below each node up to it. -/
  uids : d.uids = (List.range' s.issued source.uids.length).map UInt64.ofNat
  issued : after = ⟨s.issued + source.uids.length⟩
  /-- However the two are asked for values and tested, they answer alike. -/
  answers : ∀ as, (d.respondAll as).val.1 = (source.reset.val.respondAll as).val.1

/-! ## 1. What heads do not matter to -/

mutual

@[simp] theorem cost_mapHeads (f : Head → Head) : ∀ c : Cursor, (c.mapHeads f).cost = c.cost
  | empty _ | listing _ | inert _ | stub _ _ _ | wrapper _ _ | alternates _ _ _ _ => rfl
  | join h cs => by rw [mapHeads, cost, cost, costs_mapAllHeads f cs]
  | watch w i => by rw [mapHeads, cost, cost, cost_mapHeads f i]

@[simp] theorem costs_mapAllHeads (f : Head → Head) :
    ∀ cs : List Cursor, costs (mapAllHeads f cs) = costs cs
  | [] => rfl
  | c :: cs => by rw [mapAllHeads, costs, costs, cost_mapHeads f c, costs_mapAllHeads f cs]

end

mutual

@[simp] theorem holds_mapHeads (f : Head → Head) (v : Value) :
    ∀ c : Cursor, (c.mapHeads f).holds v = c.holds v
  | empty _ | listing _ | inert _ | stub _ _ _ | wrapper _ _ | alternates _ _ _ _ => rfl
  | join h cs => by rw [mapHeads, holds, holds, holdAll_mapAllHeads f v cs]
  | watch w i => by rw [mapHeads, holds, holds, holds_mapHeads f v i]

@[simp] theorem holdAll_mapAllHeads (f : Head → Head) (v : Value) :
    ∀ cs : List Cursor, holdAll v (mapAllHeads f cs) = holdAll v cs
  | [] => rfl
  | c :: cs => by
      rw [mapAllHeads, holdAll, holdAll, holds_mapHeads f v c, holdAll_mapAllHeads f v cs]

end

mutual

@[simp] theorem ahead_mapHeads (f : Head → Head) : ∀ c : Cursor, (c.mapHeads f).ahead = c.ahead
  | empty _ | listing _ | inert _ | stub _ _ _ | wrapper _ _ | alternates _ _ _ _ => rfl
  | join h cs => by rw [mapHeads, ahead, ahead, costs_mapAllHeads, aheadAt_mapAllHeads f]
  | watch w i => by rw [mapHeads, ahead, ahead, ahead_mapHeads f i]

theorem aheadAt_mapAllHeads (f : Head → Head) (p : Value → Bool) :
    ∀ (k : Nat) (cs : List Cursor), aheadAt p k (mapAllHeads f cs) = aheadAt p k cs
  | _, [] => rfl
  | 0, c :: after => by
      simp only [mapAllHeads, aheadAt, ahead_mapHeads f c, holdAll_mapAllHeads]
  | k + 1, c :: cs => by
      simp only [mapAllHeads, aheadAt, holds_mapHeads]
      exact aheadAt_mapAllHeads f _ k cs

end

/-- Trees with the same values ahead that hold the same values answer alike,
however they are asked. -/
theorem respondAll_eq_of_ahead_eq (as : List Access) : ∀ c d : Cursor, c.ahead = d.ahead →
    (∀ v, c.holds v = d.holds v) → (c.respondAll as).val.1 = (d.respondAll as).val.1 := by
  induction as with
  | nil => intro c d _ _; rfl
  | cons a as ih =>
    intro c d hahead hholds
    have hkept : ∀ v, (c.respondTo a).val.2.holds v = (d.respondTo a).val.2.holds v := by
      intro v
      rw [← holds_rewound, rewound_respondTo, holds_rewound, hholds,
        ← holds_rewound v (d.respondTo a).val.2, rewound_respondTo, holds_rewound]
    simp only [respondAll, Traced.val_bind, Traced.val_pure]
    cases a with
    | next =>
      obtain ⟨hvalue, hnext⟩ := next_eq_of_ahead_eq hahead
      exact List.cons_eq_cons.2 ⟨congrArg Response.value hvalue, ih _ _ hnext hkept⟩
    | check v =>
      have hanswer : (c.check v).val.1 = (d.check v).val.1 := by
        rw [(check_spec v c).answer, hholds, (check_spec v d).answer]
      have hcheck : (c.check v).val.2.ahead = (d.check v).val.2.ahead := by
        rw [ahead_check, hahead, ahead_check]
      exact List.cons_eq_cons.2 ⟨congrArg Response.verdict hanswer, ih _ _ hcheck hkept⟩

/-! ## 2. Copying -/

mutual

/-- Copying reads nothing of what a traversal changes. -/
theorem copying_rewound : ∀ c : Cursor, c.rewound.copying = c.copying
  | empty _ | listing _ | inert _ | stub _ _ _ | wrapper _ _ | alternates _ _ _ _ => rfl
  | join h cs => by
      rw [rewound, copying, copying, copyingAll_rewoundAll cs]
      rfl
  | watch w i => by rw [rewound, copying, copying, copying_rewound i]

theorem copyingAll_rewoundAll : ∀ cs : List Cursor, copyingAll (rewoundAll cs) = copyingAll cs
  | [] => rfl
  | c :: cs => by
      rw [rewoundAll, copyingAll, copyingAll, copying_rewound c, copyingAll_rewoundAll cs]

end

mutual

/-- Every node of a copy is at its start, with the hint of a new cursor. -/
theorem yields_copying_start : ∀ c : Cursor,
    c.copying.Yields fun _ d => ∀ n ∈ d.nodes, n.AtStart ∧ n.head.canNext = true
  | empty h | listing l | inert h => by
      simp [copying, emptying, nodes, AtStart, last, head]
  | alternates h l n k => by
      simp [copying, nodes, AtStart, last, head]
  | stub h e cs | join h cs => by
      rw [copying]
      refine (yields_copyingAll_start cs).bind ?_
      intro _ ds hds
      simpa [nodes, AtStart, last, head] using hds
  | wrapper h i => by
      rw [copying]
      refine (yields_copying_start i).bind ?_
      intro _ d hd
      simpa [nodes, AtStart, last, head] using hd
  | watch w i => by
      rw [copying]
      refine (yields_copying_start i).bind ?_
      intro _ d hd
      simpa [nodes] using hd

theorem yields_copyingAll_start : ∀ cs : List Cursor,
    (copyingAll cs).Yields fun _ ds => ∀ n ∈ allNodes ds, n.AtStart ∧ n.head.canNext = true
  | [] => fun _ hn => absurd hn List.not_mem_nil
  | c :: cs => by
      rw [copyingAll]
      refine (yields_copying_start c).bind ?_
      intro _ d hd
      refine (yields_copyingAll_start cs).bind ?_
      intro _ ds hds
      simp only [Asking.yields_pure, allNodes, List.mem_append]
      intro n hn
      exact hn.elim (hd n) (hds n)

end

mutual

/-- A copy of an untraversed tree is that tree, but for the identities and
the hints. -/
theorem yields_copying_same : ∀ c : Cursor, c.OverLists → c.Untraversed →
    c.copying.Yields fun _ d => d.nameless = c.hinting.nameless
  | empty h, _, hstart => by
      obtain ⟨hlast, -⟩ := hstart _ (List.mem_singleton_self _)
      replace hlast : h.last = none := hlast
      simp [copying, emptying, nameless, hinting, mapHeads, Head.unnamed, Head.hinting, hlast]
  | listing l, _, hstart => by
      obtain ⟨hlast, hposition⟩ := hstart _ (List.mem_singleton_self _)
      replace hlast : l.head.last = none := hlast
      replace hposition : l.position = 0 := hposition l rfl
      simp [copying, nameless, hinting, mapHeads, Head.unnamed, Head.hinting, hlast, hposition]
  | join h cs, hc, hstart => by
      obtain ⟨hlast, -⟩ := hstart _ List.mem_cons_self
      replace hlast : h.last = none := hlast
      rw [copying]
      refine (yields_copyingAll_same cs hc fun n hn => hstart n (List.mem_cons_of_mem _ hn)).bind ?_
      intro _ ds hds
      simp [nameless, hinting, mapHeads, hds, Head.unnamed, Head.hinting, hlast]
  | watch w i, hc, hstart => by
      rw [copying]
      refine (yields_copying_same i hc hstart).bind ?_
      intro _ d hd
      exact congrArg (watch w) hd

theorem yields_copyingAll_same : ∀ cs : List Cursor, AllOverLists cs →
    (∀ n ∈ allNodes cs, n.AtStart) → (copyingAll cs).Yields fun _ ds =>
      mapAllHeads Head.unnamed ds = mapAllHeads Head.unnamed (mapAllHeads Head.hinting cs)
  | [], _, _ => rfl
  | c :: cs, hc, hstart => by
      rw [copyingAll]
      refine (yields_copying_same c hc.1 fun n hn => hstart n (List.mem_append_left _ hn)).bind ?_
      intro _ d hd
      refine (yields_copyingAll_same cs hc.2 fun n hn =>
        hstart n (List.mem_append_right _ hn)).bind ?_
      intro _ ds hds
      exact List.cons_eq_cons.2 ⟨hd, hds⟩

end

theorem hinting_of_canNext {h : Head} (hhint : h.canNext = true) : h.hinting = h := by
  cases h
  simp only at hhint
  simp [Head.hinting, hhint]

mutual

theorem hinting_of_hinted : ∀ c : Cursor, c.OverLists → c.Hinted → c.hinting = c
  | empty h, _, hhint => by
      have hhead : h.hinting = h := hinting_of_canNext (hhint _ (List.mem_singleton_self _))
      rw [hinting, mapHeads, hhead]
  | listing l, _, hhint => by
      have hhead : l.head.hinting = l.head :=
        hinting_of_canNext (hhint _ (List.mem_singleton_self _))
      rw [hinting, mapHeads, hhead]
  | join h cs, hc, hhint => by
      have hhead : h.hinting = h := hinting_of_canNext (hhint _ List.mem_cons_self)
      have hcs := hintingAll_of_hinted cs hc fun n hn => hhint n (List.mem_cons_of_mem _ hn)
      rw [hinting, mapHeads, hhead, hcs]
  | watch w i, hc, hhint => congrArg (watch w) (hinting_of_hinted i hc hhint)

theorem hintingAll_of_hinted : ∀ cs : List Cursor, AllOverLists cs →
    (∀ n ∈ allNodes cs, n.head.canNext = true) → mapAllHeads Head.hinting cs = cs
  | [], _, _ => rfl
  | c :: cs, hc, hhint => by
      have here := hinting_of_hinted c hc.1 fun n hn => hhint n (List.mem_append_left _ hn)
      have there := hintingAll_of_hinted cs hc.2 fun n hn => hhint n (List.mem_append_right _ hn)
      exact List.cons_eq_cons.2 ⟨here, there⟩

end

theorem canNext_rewound : ∀ c : Cursor, c.rewound.head.canNext = c.head.canNext
  | empty _ | listing _ | inert _ | stub _ _ _ | wrapper _ _ | alternates _ _ _ _ | join _ _ => rfl
  | watch _ i => canNext_rewound i

/-- A traversal takes no hint back and gives none. -/
theorem hinted_of_rewound_eq {c d : Cursor} (h : c.rewound = d.rewound) (hd : d.Hinted) :
    c.Hinted := by
  intro n hn
  have hnodes := map_nodes_eq_of_rewound_eq (f := fun n => n.head.canNext) canNext_rewound h
  have hin : n.head.canNext ∈ c.nodes.map fun n => n.head.canNext := List.mem_map_of_mem hn
  rw [hnodes] at hin
  obtain ⟨m, hm, hsame⟩ := List.mem_map.1 hin
  exact hsame.symm.trans (hd m hm)

/-! ## 3. Copies made on a supply -/

theorem uids_copy (c : Cursor) (s : Supply) :
    (c.copy.outcome s).1.uids = (List.range' s.issued c.uids.length).map UInt64.ofNat ∧
      (c.copy.outcome s).2 = ⟨s.issued + c.uids.length⟩ := by
  obtain ⟨n, ⟨huids, hlength⟩, hsupply⟩ := (yields_copying c).run s
  rw [List.length_map, List.length_range'] at hlength
  rw [run_copying, hlength] at huids hsupply
  exact ⟨huids, hsupply⟩

theorem start_copy (c : Cursor) (s : Supply) :
    ∀ n ∈ (c.copy.outcome s).1.nodes, n.AtStart ∧ n.head.canNext = true := by
  obtain ⟨-, hstart, -⟩ := (yields_copying_start c).run s
  rwa [run_copying] at hstart

theorem nameless_copy {c : Cursor} (hc : c.OverLists) (hstart : c.Untraversed) (s : Supply) :
    (c.copy.outcome s).1.nameless = c.hinting.nameless := by
  obtain ⟨-, hsame, -⟩ := (yields_copying_same c hc hstart).run s
  rwa [run_copying] at hsame

/-- Trees that are the same but for identities and hints answer alike. -/
theorem respondAll_eq_of_nameless_eq {c d : Cursor} (h : d.nameless = c.hinting.nameless)
    (as : List Access) : (d.respondAll as).val.1 = (c.respondAll as).val.1 := by
  refine respondAll_eq_of_ahead_eq as d c ?_ ?_
  · have hahead := congrArg ahead h
    simpa [nameless, hinting] using hahead
  · intro v
    have hholds := congrArg (holds v) h
    simpa [nameless, hinting] using hholds

theorem copy_session (session : Session) {slot target : String} {held : Slot}
    (hslot : session.slots.get? slot = some held) :
    ((Session.serve slot (.ask (.copy target))).run session).val.2 =
      { session with
        slots := session.slots.insert target
          ⟨(held.cursor.copy.outcome session.supply).1, false⟩
        supply := (held.cursor.copy.outcome session.supply).2 } := by
  simp only [Session.serve, StateT.run_bind, StateT.run_get, Traced.val_bind, Traced.val_pure,
    hslot]
  rfl

/-- Whatever was done with an untraversed tree of joins over lists, a copy of
it is the tree that a reset would give back, under consecutive identities of
its own.  In a session the copy goes to its slot, and what is in any other
slot, the source among them, stays as it is. -/
theorem copy_renews (c : Cursor) (hc : c.OverLists) (hstart : c.Untraversed) (ms : List Move) :
    (∀ s : Supply, Renewed (c.moveAll ms).val s
        ((c.moveAll ms).val.copy.outcome s).1 ((c.moveAll ms).val.copy.outcome s).2) ∧
      ∀ (session after : Session) (slot target : String) (plain : Bool),
        session.slots.get? slot = some ⟨(c.moveAll ms).val, plain⟩ →
        after = ((Session.serve slot (.ask (.copy target))).run session).val.2 →
        after.slots.get? target =
            some ⟨((c.moveAll ms).val.copy.outcome session.supply).1, false⟩ ∧
          ∀ other, other ≠ target → after.slots.get? other = session.slots.get? other := by
  have hframe := rewound_moveAll ms c
  have hreset := reset_moveAll hc hstart ms
  constructor
  · intro s
    -- A copy taken now is the one that could have been taken at first.
    have hcopy : (c.moveAll ms).val.copy.outcome s = c.copy.outcome s := by
      rw [← run_copying, ← copying_rewound, hframe, copying_rewound, run_copying]
    have hsame : ((c.moveAll ms).val.copy.outcome s).1.nameless = c.hinting.nameless := by
      rw [hcopy, nameless_copy hc hstart s]
    obtain ⟨huids, hsupply⟩ := uids_copy (c.moveAll ms).val s
    have hat := start_copy (c.moveAll ms).val s
    constructor
    case same => rw [hreset, hsame]
    case same_of_hinted =>
      intro hhinted
      rw [hreset, hsame, hinting_of_hinted c hc (hinted_of_rewound_eq hframe.symm hhinted)]
    case untraversed => exact fun n hn => (hat n hn).1
    case hinted => exact fun n hn => (hat n hn).2
    case uids => exact huids
    case issued => exact hsupply
    case answers =>
      intro as
      rw [hreset]
      exact respondAll_eq_of_nameless_eq hsame as
  · rintro session after slot target plain hslot rfl
    rw [copy_session session hslot]
    exact ⟨by simp, fun other hother => by simp [hother]⟩

/-- A session with a tree that was traversed. -/
def copyingSession : Session where
  slots := Dict.empty.insert "source" ⟨(freshPlan.moveAll [.check (.id 2), .next]).val, false⟩
  supply := ⟨5⟩

theorem freshPlan_copy :
    freshPlan.OverLists ∧ freshPlan.Untraversed ∧
      (freshPlan.moveAll [.check (.id 2), .next]).val.last = some (.id 4) ∧
      ((freshPlan.moveAll [.check (.id 2), .next]).val.copy.outcome ⟨5⟩).1.uids =
        [5, 6, 7, 8, 9] ∧
      Renewed (freshPlan.moveAll [.check (.id 2), .next]).val ⟨5⟩
        ((freshPlan.moveAll [.check (.id 2), .next]).val.copy.outcome ⟨5⟩).1 ⟨10⟩ ∧
      (((Session.serve "source" (.ask (.copy "copy"))).run copyingSession).val.2.slots.get?
        "source") = some ⟨(freshPlan.moveAll [.check (.id 2), .next]).val, false⟩ := by
  have hc : freshPlan.OverLists := by
    simp [freshPlan, OverLists, AllOverLists]
  have hstart : freshPlan.Untraversed := by
    simp [freshPlan, Untraversed, nodes, allNodes, AtStart, last, head]
  obtain ⟨hrenewed, hsession⟩ := copy_renews freshPlan hc hstart [.check (.id 2), .next]
  have hslot : copyingSession.slots.get? "source" =
      some ⟨(freshPlan.moveAll [.check (.id 2), .next]).val, false⟩ := by
    simp [copyingSession]
  refine ⟨hc, hstart, rfl, rfl, hrenewed ⟨5⟩, ?_⟩
  rw [(hsession copyingSession _ "source" "copy" false hslot rfl).2 "source" (by simp), hslot]

end Cursor

end CursorTree
