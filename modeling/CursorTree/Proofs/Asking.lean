/-
CursorTree.Proofs.Asking — the operations that make cursors, cut where they
ask for an identity.

While a tree is being made, copied or optimized other callers may receive
identities too.  What an operation does then is not a function from one
supply to the next, but a sequence of requests, each answered by whatever
identity its turn brings.  `Asking` is that sequence.  The operations are
given here in this form, and each of them, when nobody else asks meanwhile,
is the operation on a supply (`run_copying`, `run_optimizing`,
`build_eq_building`).

`Yields` says what an operation results in under all answers it may get.  It
takes no assumption on the answers, so one proof serves the interleaved and
the uninterrupted case (`Yields.run`).
-/
import CursorTree.Cursor.Copy
import CursorTree.Cursor.Simplify
import CursorTree.Session.Spec

namespace CursorTree

/-- A computation that asks for identities one at a time. -/
inductive Asking (α : Type) where
  | done (a : α)
  | ask (next : Uid → Asking α)

namespace Asking

variable {α β : Type}

/-- Goes on with another computation in the end. -/
def andThen (p : Asking α) (f : α → Asking β) : Asking β :=
  match p with
  | done a => f a
  | ask next => ask fun u => (next u).andThen f

instance : Monad Asking where
  pure := done
  bind := andThen

/-- Asks for one identity. -/
def fresh : Asking Uid := ask done

/-- Answers every request from one supply. -/
def run (p : Asking α) (s : Supply) : α × Supply :=
  match p with
  | done a => (a, s)
  | ask next => (next s.issue.1).run s.issue.2

/-- Whatever identities the computation receives, they and its value are as
said. -/
def Yields (p : Asking α) (Q : List Uid → α → Prop) : Prop :=
  match p with
  | done a => Q [] a
  | ask next => ∀ u, (next u).Yields fun us a => Q (u :: us) a

/-! ## 1. Running from a supply -/

@[simp] theorem run_pure (a : α) (s : Supply) : run (pure a) s = (a, s) := rfl

@[simp] theorem run_bind (p : Asking α) (f : α → Asking β) :
    ∀ s : Supply, run (p >>= f) s = run (f (p.run s).1) (p.run s).2 := by
  induction p with
  | done a => intro s; rfl
  | ask next ih =>
    intro s
    exact ih s.issue.1 s.issue.2

/-! ## 2. What a computation yields -/

theorem Yields.imp {p : Asking α} {Q R : List Uid → α → Prop} (h : p.Yields Q)
    (hQR : ∀ us a, Q us a → R us a) : p.Yields R := by
  induction p generalizing Q R with
  | done a => exact hQR [] a h
  | ask next ih => exact fun u => ih u (h u) fun us a => hQR (u :: us) a

@[simp] theorem yields_pure (a : α) (Q : List Uid → α → Prop) : Yields (pure a) Q ↔ Q [] a :=
  Iff.rfl

@[simp] theorem yields_fresh_bind (f : Uid → Asking β) (Q : List Uid → β → Prop) :
    Yields (fresh >>= f) Q ↔ ∀ u, (f u).Yields fun us b => Q (u :: us) b :=
  Iff.rfl

/-- The second part of a computation receives its identities after those of
the first. -/
theorem Yields.bind {p : Asking α} {f : α → Asking β} {Q : List Uid → α → Prop}
    {R : List Uid → β → Prop} (h : p.Yields Q)
    (hf : ∀ us a, Q us a → (f a).Yields fun vs b => R (us ++ vs) b) :
    Yields (p >>= f) R := by
  induction p generalizing Q R with
  | done a => exact hf [] a h
  | ask next ih => exact fun u => ih u (h u) fun us a hQ => hf (u :: us) a hQ

/-- Answered from one supply, a computation receives consecutive identities. -/
theorem Yields.run {p : Asking α} {Q : List Uid → α → Prop} (h : p.Yields Q) (s : Supply) :
    ∃ n, Q ((List.range' s.issued n).map UInt64.ofNat) (p.run s).1 ∧
      (p.run s).2 = ⟨s.issued + n⟩ := by
  induction p generalizing Q s with
  | done a => exact ⟨0, h, rfl⟩
  | ask next ih =>
    obtain ⟨n, hQ, hsupply⟩ := ih s.issue.1 (h s.issue.1) s.issue.2
    refine ⟨n + 1, hQ, ?_⟩
    rw [Asking.run, hsupply]
    simp only [Supply.issue, Nat.add_assoc, Nat.add_comm 1 n]

end Asking

/-! ## 3. The operations on cursors -/

namespace Cursor

/-- A fresh cursor over no values, as `emptyWith` makes it. -/
def emptying (t : Tags) : Asking Cursor := do
  return empty { uid := ← Asking.fresh, tags := t }

mutual

/-- A copy, as `copy` makes it. -/
def copying : Cursor → Asking Cursor
  | empty h => emptying h.tags
  | listing l => do
    return listing ⟨{ uid := ← Asking.fresh, tags := Tags.empty.merge l.head.tags }, l.values, 0⟩
  | inert _ => do
    return inert { uid := ← Asking.fresh }
  | stub h e cs => do
    let cs ← copyingAll cs
    return stub { uid := ← Asking.fresh, tags := h.tags } e cs
  | wrapper _ i => do
    let i ← i.copying
    return wrapper { uid := ← Asking.fresh } i
  | alternates h l n _ => do
    let own ← Asking.fresh
    let inner ← Asking.fresh
    return alternates { uid := own, tags := h.tags } ⟨{ uid := inner }, l.values, 0⟩ n 0
  | join h cs => do
    let cs ← copyingAll cs
    return join { uid := ← Asking.fresh, tags := Tags.empty.merge h.tags } cs
  | watch w i => do
    return watch w (← i.copying)

def copyingAll : List Cursor → Asking (List Cursor)
  | [] => pure []
  | c :: cs => do
    let c ← c.copying
    return c :: (← copyingAll cs)

end

mutual

/-- A replacement and whether it is another cursor, as `simplify` finds them. -/
def simplifying : Cursor → Asking (Cursor × Bool)
  | listing l => do
    if l.values.isEmpty then
      return (← emptying l.head.tags, true)
    else
      return (listing l, false)
  | wrapper _ i => pure (i, true)
  | join h cs => do
    let (cs, changed) ← simplifyingAll cs
    if (costs cs).any Cost.isZero then
      return (← emptying (gatheredTags h.tags cs), true)
    else
      return (join h cs, changed)
  | watch w i => do
    let (i, changed) ← i.simplifying
    return (watch w i, changed)
  | empty h => pure (empty h, false)
  | inert h => pure (inert h, false)
  | stub h e cs => pure (stub h e cs, false)
  | alternates h l n k => pure (alternates h l n k, false)

def simplifyingAll : List Cursor → Asking (List Cursor × Bool)
  | [] => pure ([], false)
  | c :: cs => do
    let (c, here) ← c.simplifying
    let (cs, there) ← simplifyingAll cs
    return (c :: cs, here || there)

end

/-- So many passes at most, as `passes` makes them. -/
def passing : Nat → Cursor → Asking Cursor
  | 0, c => pure c
  | left + 1, c => do
    let (d, changed) ← c.simplifying
    if changed then passing left d else return d

/-- The optimized tree, as `optimize` finds it. -/
def optimizing (cap : Nat) (c : Cursor) : Asking Cursor := passing (max cap 1) c

@[simp] theorem run_emptying (t : Tags) (s : Supply) :
    (emptying t).run s = (emptyWith t).outcome s := rfl

mutual

@[simp] theorem run_copying : ∀ (c : Cursor) (s : Supply), c.copying.run s = c.copy.outcome s
  | empty h, s | listing l, s | inert h, s | alternates h l n k, s => rfl
  | stub h e cs, s | join h cs, s => by
      simp only [copying, copy, Asking.run_bind, Issuing.outcome_bind, run_copyingAll cs]
      rfl
  | wrapper h i, s | watch w i, s => by
      simp only [copying, copy, Asking.run_bind, Issuing.outcome_bind, run_copying i]
      rfl

@[simp] theorem run_copyingAll :
    ∀ (cs : List Cursor) (s : Supply), (copyingAll cs).run s = (copyAll cs).outcome s
  | [], s => rfl
  | c :: cs, s => by
      simp only [copyingAll, copyAll, Asking.run_bind, Issuing.outcome_bind, run_copying c,
        run_copyingAll cs]
      rfl

end

mutual

@[simp] theorem run_simplifying :
    ∀ (c : Cursor) (s : Supply), c.simplifying.run s = c.simplify.outcome s
  | empty _, s | inert _, s | stub _ _ _, s | alternates _ _ _ _, s | wrapper _ _, s => rfl
  | listing l, s => by
      rw [simplifying, simplify]
      split <;> rfl
  | join h cs, s => by
      simp only [simplifying, simplify, Asking.run_bind, Issuing.outcome_bind,
        run_simplifyingAll cs]
      split <;> rfl
  | watch w i, s => by
      simp only [simplifying, simplify, Asking.run_bind, Issuing.outcome_bind, run_simplifying i]
      rfl

@[simp] theorem run_simplifyingAll :
    ∀ (cs : List Cursor) (s : Supply), (simplifyingAll cs).run s = (simplifyAll cs).outcome s
  | [], s => rfl
  | c :: cs, s => by
      simp only [simplifyingAll, simplifyAll, Asking.run_bind, Issuing.outcome_bind,
        run_simplifying c, run_simplifyingAll cs]
      rfl

end

theorem run_passing (left : Nat) : ∀ (pass : Nat) (c : Cursor) (s : Supply),
    (passing left c).run s = (passes left pass c).outcome s := by
  induction left with
  | zero => intro pass c s; rfl
  | succ left ih =>
    intro pass c s
    simp only [passing, passes, Asking.run_bind, Issuing.outcome_bind, run_simplifying]
    split
    · exact ih (pass + 1) _ _
    · rfl

theorem run_optimizing (cap : Nat) (c : Cursor) (s : Supply) :
    (c.optimizing cap).run s = (c.optimize cap).outcome s :=
  run_passing (max cap 1) 0 c s

end Cursor

/-! ## 4. Making a tree to order

A specification may take trees out of slots.  In a session that has them the
session is changed in two places only: the slots taken from, and the supply. -/

namespace Session

/-- So many new wrappers around a cursor, as `wrap` makes them. -/
def wrapping : Nat → Cursor → Asking Cursor
  | 0, c => pure c
  | depth + 1, c => do wrapping depth (.wrapper { uid := ← Asking.fresh } c)

namespace Spec

mutual

/-- The slots that a specification takes cursors out of, in order. -/
def slots : Spec → List String
  | slot name _ => [name]
  | stub _ cs _ | join cs _ => allSlots cs
  | wrapper _ i _ | watch _ i _ => i.slots
  | empty _ | listing _ _ | inert _ | bare _ | alternates _ _ _ => []

def allSlots : List Spec → List String
  | [] => []
  | s :: ss => s.slots ++ allSlots ss

end

mutual

/-- The tree of a specification, as `build` makes it, with the cursors of the
slots given. -/
def building (held : String → Cursor) : Spec → Asking Cursor
  | empty d => do
    return .empty { uid := ← Asking.fresh, tags := d.wear .empty }
  | listing vs d => do
    return .listing ⟨{ uid := ← Asking.fresh, tags := d.wear .empty }, vs, 0⟩
  | slot name d => pure ((held name).retag d.wear)
  | inert d => do
    return .stub { uid := ← Asking.fresh, tags := d.wear .empty } .unknown []
  | bare d => do
    return .inert { uid := ← Asking.fresh, tags := d.wear .empty }
  | stub e cs d => do
    let cs ← buildingAll held cs
    return .stub { uid := ← Asking.fresh, tags := d.wear .empty } e cs
  | wrapper depth i d => do
    let i ← i.building held
    return (← wrapping depth i).retag d.wear
  | alternates vs n d => do
    let own ← Asking.fresh
    let inner ← Asking.fresh
    return .alternates { uid := own, tags := d.wear .empty } ⟨{ uid := inner }, vs, 0⟩ n 0
  | join cs d => do
    let cs ← buildingAll held cs
    return .join { uid := ← Asking.fresh, tags := d.wear .empty } cs
  | watch w i d => do
    return (Cursor.watch w (← i.building held)).retag d.wear

def buildingAll (held : String → Cursor) : List Spec → Asking (List Cursor)
  | [] => pure []
  | s :: ss => do
    let c ← s.building held
    return c :: (← buildingAll held ss)

end

end Spec

/-- The session has cursors in some slots, each a slot of its own. -/
structure Offers (s : Session) (held : String → Cursor) (names : List String) : Prop where
  distinct : names.Nodup
  present : ∀ n ∈ names, (s.slots.get? n).map (·.cursor) = some (held n)

/-- The session after some slots were emptied and identities issued. -/
def spent (s : Session) (names : List String) (supply : Supply) : Session :=
  { s with slots := names.foldl Dict.erase s.slots, supply }

/-- In a session the computation makes something and leaves another session. -/
def Makes {α : Type} (m : Making α) (s : Session) (a : α) (t : Session) : Prop :=
  (m.run.run s).val = (some a, t)

theorem makes_pure {α : Type} (a : α) (s : Session) : Makes (pure a) s a s := rfl

theorem Makes.bind {α β : Type} {m : Making α} {f : α → Making β} {s t u : Session} {a : α}
    {b : β} (hm : Makes m s a t) (hf : Makes (f a) t b u) : Makes (m >>= f) s b u := by
  unfold Makes at hm hf ⊢
  simp only [OptionT.run_bind, Option.elimM, StateT.run_bind, Traced.val_bind, hm]
  exact hf

theorem makes_issue (s : Session) :
    Makes issue s s.supply.issue.1 { s with supply := s.supply.issue.2 } := rfl

theorem makes_take {s : Session} {name : String} {held : Slot}
    (h : s.slots.get? name = some held) :
    Makes (take name) s held { s with slots := s.slots.erase name } := by
  refine Makes.bind (a := s) (t := s) rfl ?_
  simp only [h]
  exact Makes.bind (a := ()) rfl (makes_pure held _)

/-- What is offered beside some slots is still offered when these are empty. -/
theorem Offers.after {s : Session} {held : String → Cursor} {names others : List String}
    (h : s.Offers held (names ++ others)) (supply : Supply) :
    (s.spent names supply).Offers held others where
  distinct := (List.nodup_append.1 h.distinct).2.1
  present := by
    intro n hn
    have hfree : n ∉ names := fun hin => (List.nodup_append.1 h.distinct).2.2 n hin n hn rfl
    rw [spent, Dict.get?_foldl_erase _ hfree]
    exact h.present n (List.mem_append_right _ hn)

theorem Offers.before {s : Session} {held : String → Cursor} {names others : List String}
    (h : s.Offers held (names ++ others)) : s.Offers held names where
  distinct := (List.nodup_append.1 h.distinct).1
  present := fun n hn => h.present n (List.mem_append_left _ hn)

theorem spent_spent (s : Session) (names others : List String) (supply later : Supply) :
    (s.spent names supply).spent others later = s.spent (names ++ others) later := by
  simp only [spent, List.foldl_append]

theorem makes_wrap : ∀ (depth : Nat) (c : Cursor) (s : Session),
    Makes (wrap depth c) s ((wrapping depth c).run s.supply).1
      { s with supply := ((wrapping depth c).run s.supply).2 }
  | 0, c, s => makes_pure c s
  | depth + 1, c, s => by
      simp only [wrap, wrapping, Asking.run_bind]
      exact (makes_issue s).bind (makes_wrap depth _ _)

namespace Spec

mutual

/-- A session that offers what a specification takes makes the tree of the
specification, on what its supply has to give. -/
theorem build_eq_building (held : String → Cursor) : ∀ (spec : Spec) (s : Session),
    s.Offers held spec.slots →
      Makes spec.build s ((spec.building held).run s.supply).1
        (s.spent spec.slots ((spec.building held).run s.supply).2)
  | empty d, s, _ | listing vs d, s, _ | inert d, s, _ | bare d, s, _
  | alternates vs n d, s, _ => rfl
  | slot name d, s, h => by
      obtain ⟨taken, hget, hcursor⟩ := Option.map_eq_some_iff.1 (h.present name (by simp [slots]))
      simp only [build, building, Asking.run_pure, ← hcursor]
      exact (makes_take hget).bind (makes_pure _ _)
  | stub e cs d, s, h | join cs d, s, h => by
      simp only [build, building, Asking.run_bind]
      exact (buildAll_eq_buildingAll held cs s h).bind ((makes_issue _).bind (makes_pure _ _))
  | wrapper depth i d, s, h => by
      simp only [build, building, Asking.run_bind]
      exact (build_eq_building held i s h).bind ((makes_wrap depth _ _).bind (makes_pure _ _))
  | watch w i d, s, h => by
      simp only [build, building, Asking.run_bind]
      exact (build_eq_building held i s h).bind (makes_pure _ _)

theorem buildAll_eq_buildingAll (held : String → Cursor) : ∀ (specs : List Spec) (s : Session),
    s.Offers held (allSlots specs) →
      Makes (buildAll specs) s ((buildingAll held specs).run s.supply).1
        (s.spent (allSlots specs) ((buildingAll held specs).run s.supply).2)
  | [], s, _ => makes_pure [] s
  | spec :: specs, s, h => by
      have here := build_eq_building held spec s h.before
      have there := buildAll_eq_buildingAll held specs _
        (h.after ((spec.building held).run s.supply).2)
      rw [spent_spent] at there
      simp only [buildAll, buildingAll, Asking.run_bind]
      exact here.bind (there.bind (makes_pure _ _))

end

end Spec

end Session

end CursorTree
