/-
CursorTree.Uid — the supply of cursor identities.

Every cursor receives a number when it is made.  The numbers come from one
supply that counts what it has issued: the first is 0 and each next one is
greater by one, modulo the width of a word.  Operations that make cursors
run in `Issuing`, which threads the supply through a traced computation.
-/
import CursorTree.Trace

namespace CursorTree

/-- The identity of a cursor. -/
abbrev Uid := UInt64

/-- A counter of the identities issued so far. -/
structure Supply where
  issued : Nat := 0
  deriving DecidableEq, Inhabited

/-- The next identity, and the supply without it. -/
def Supply.issue (s : Supply) : Uid × Supply :=
  (UInt64.ofNat s.issued, ⟨s.issued + 1⟩)

/-- Serves callers in the order of a schedule, one identity at a time, and
answers who received which. -/
def Supply.serve (s : Supply) : List Nat → List (Nat × Uid) × Supply
  | [] => ([], s)
  | caller :: rest =>
    let (uid, s) := s.issue
    let (served, s) := s.serve rest
    ((caller, uid) :: served, s)

/-- What a list of served identities amounts to. -/
structure Census where
  /-- How many different identities there are. -/
  distinct : Nat
  least : Option Uid
  greatest : Option Uid
  /-- Every caller has received ever greater identities. -/
  increasing : Bool
  deriving DecidableEq

/-- True when each identity is greater than the one before it. -/
def ascending : List Uid → Bool
  | a :: b :: rest => a < b && ascending (b :: rest)
  | _ => true

/-- Sums up who received which identity. -/
def census (served : List (Nat × Uid)) : Census :=
  let uids := served.map (·.2)
  let callers := (served.map (·.1)).eraseDups
  { distinct := uids.eraseDups.length
    least := uids.min?
    greatest := uids.max?
    increasing := callers.all fun c =>
      ascending ((served.filter fun s => s.1 = c).map (·.2)) }

/-- A schedule in which so many callers take turns, each so many times. -/
def turns (callers each : Nat) : List Nat :=
  (List.range each).flatMap fun _ => List.range callers

/-- Traced computations that may issue identities. -/
abbrev Issuing := StateT Supply Traced

namespace Issuing

/-- Issues one identity. -/
def fresh : Issuing Uid := fun s => pure s.issue

/-- The value and the supply after running from a supply. -/
def outcome {α : Type} (m : Issuing α) (s : Supply) : α × Supply := (m.run s).val

/-- The calls noted on the way from a supply. -/
def calls {α : Type} (m : Issuing α) (s : Supply) : List (String × Operation) := (m.run s).calls

/-- The events reported on the way from a supply. -/
def events {α : Type} (m : Issuing α) (s : Supply) : List Event := (m.run s).events

section Outcomes

variable {α β : Type}

@[simp] theorem outcome_pure (a : α) (s : Supply) : outcome (pure a) s = (a, s) := rfl

/-- A sequence goes on from the supply that its first part leaves. -/
@[simp] theorem outcome_bind (m : Issuing α) (f : α → Issuing β) (s : Supply) :
    outcome (m >>= f) s = outcome (f (m.outcome s).1) (m.outcome s).2 := rfl

/-- What issues nothing leaves the supply alone. -/
@[simp] theorem outcome_liftM (x : Traced α) (s : Supply) :
    outcome (liftM x) s = (x.val, s) := rfl

@[simp] theorem outcome_fresh (s : Supply) : outcome fresh s = s.issue := rfl

@[simp] theorem calls_pure (a : α) (s : Supply) : calls (pure a) s = [] := rfl

@[simp] theorem calls_bind (m : Issuing α) (f : α → Issuing β) (s : Supply) :
    calls (m >>= f) s = calls m s ++ calls (f (m.outcome s).1) (m.outcome s).2 :=
  Traced.calls_bind (m.run s) fun p => (f p.1).run p.2

@[simp] theorem calls_report (e : Event) (s : Supply) :
    calls (liftM (Traced.report e)) s = [] := rfl

@[simp] theorem events_pure (a : α) (s : Supply) : events (pure a) s = [] := rfl

@[simp] theorem events_bind (m : Issuing α) (f : α → Issuing β) (s : Supply) :
    events (m >>= f) s = events m s ++ events (f (m.outcome s).1) (m.outcome s).2 :=
  Traced.events_bind (m.run s) fun p => (f p.1).run p.2

@[simp] theorem events_liftM (x : Traced α) (s : Supply) : events (liftM x) s = x.events := by
  refine (Traced.events_bind x fun a => pure (a, s)).trans ?_
  exact List.append_nil _

end Outcomes

end Issuing

end CursorTree
