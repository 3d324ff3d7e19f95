/-
CursorTree.Trace — values together with what was observed on the way.

Evaluating a tree of cursors leaves a trace: the steps of the optimizer
and of the evaluation, and the calls that reach cursors under watch.  A
traced computation is a value and the list of entries noted while it was
computed.  Noting never influences a value: the value of a sequence is
the sequence of the values (`val_bind`).
-/

namespace CursorTree

/-- The operations of a cursor that a watch reports. -/
inductive Operation where
  | next | nextResult | check | writeTags | optimize | reset | close | clone
  deriving DecidableEq, Inhabited

/-- The word that reports an operation. -/
def Operation.word : Operation → String
  | next => "next"
  | nextResult => "next_result"
  | check => "check"
  | writeTags => "tag_results"
  | optimize => "optimize"
  | reset => "reset"
  | close => "close"
  | clone => "clone"

/-- What optimizing and evaluating report. -/
inductive Event where
  /-- A pass of the optimizer left the tree with this root as it was. -/
  | unchanged (pass : Nat) (uid : UInt64)
  /-- A pass of the optimizer put one root in the place of another. -/
  | replaced (pass : Nat) (old new : UInt64) (kind : String)
  /-- The last pass allowed still changed the tree. -/
  | capReached (passes : Nat)
  /-- The row that was just written is the last one allowed. -/
  | limitReached (limit : Nat)
  /-- An evaluation ended with this many rows. -/
  | finished (rows : Nat) (uid : UInt64)
  deriving DecidableEq

/-- How much an event matters. -/
inductive Level where
  | trace
  | debug
  deriving DecidableEq

/-- The name of a level. -/
def Level.word : Level → String
  | trace => "TRACE"
  | debug => "DEBUG"

/-- The level of an event: what changes nothing matters least. -/
def Event.level : Event → Level
  | unchanged .. => .trace
  | replaced .. | capReached .. | limitReached .. | finished .. => .debug

/-- The wording of an event. -/
def Event.message : Event → String
  | unchanged .. => "iterator tree unchanged"
  | replaced .. => "iterator replaced"
  | capReached .. => "optimizer pass cap reached"
  | limitReached .. => "result limit reached"
  | finished .. => "evaluation finished"

/-- One entry of a trace. -/
inductive Entry where
  /-- An operation reached the watch of this name. -/
  | call (watch : String) (operation : Operation)
  /-- Something an optimizer or an evaluation reports. -/
  | event (event : Event)
  deriving DecidableEq

/-- A value with the entries noted while it was computed. -/
structure Traced (α : Type) where
  val : α
  log : List Entry

namespace Traced

variable {α β : Type}

instance : Monad Traced where
  pure a := ⟨a, []⟩
  bind x f := ⟨(f x.val).val, x.log ++ (f x.val).log⟩

@[simp] theorem val_pure (a : α) : (pure a : Traced α).val = a := rfl

@[simp] theorem log_pure (a : α) : (pure a : Traced α).log = [] := rfl

@[simp] theorem val_bind (x : Traced α) (f : α → Traced β) :
    (x >>= f).val = (f x.val).val := rfl

@[simp] theorem log_bind (x : Traced α) (f : α → Traced β) :
    (x >>= f).log = x.log ++ (f x.val).log := rfl

@[ext] theorem ext {x y : Traced α} (hv : x.val = y.val) (hl : x.log = y.log) : x = y := by
  cases x; cases y; cases hv; cases hl; rfl

/-- Tracing obeys the laws of sequencing. -/
instance : LawfulMonad Traced := by
  refine LawfulMonad.mk' Traced ?_ ?_ ?_
  · intro _ x
    ext <;> simp [Functor.map]
  · intro _ _ _ _
    ext <;> simp
  · intro _ _ _ x f g
    ext <;> simp

@[simp] theorem val_map (f : α → β) (x : Traced α) : (f <$> x).val = f x.val := rfl

@[simp] theorem log_map (f : α → β) (x : Traced α) : (f <$> x).log = x.log := by
  simp [Functor.map]

/-- Notes one entry. -/
def note (e : Entry) : Traced Unit := ⟨(), [e]⟩

/-- Notes that an operation reached a watch. -/
def call (watch : String) (op : Operation) : Traced Unit := note (.call watch op)

/-- Notes an event. -/
def report (e : Event) : Traced Unit := note (.event e)

@[simp] theorem val_call (w : String) (op : Operation) : (call w op).val = () := rfl

@[simp] theorem val_report (e : Event) : (report e).val = () := rfl

/-- The events of a trace, in order. -/
def events (x : Traced α) : List Event :=
  x.log.filterMap fun
    | .event e => some e
    | .call .. => none

/-- The calls of a trace, in order. -/
def calls (x : Traced α) : List (String × Operation) :=
  x.log.filterMap fun
    | .call w op => some (w, op)
    | .event _ => none

@[simp] theorem calls_pure (a : α) : (pure a : Traced α).calls = [] := rfl

/-- The calls of a sequence are those of its parts, in order. -/
@[simp] theorem calls_bind (x : Traced α) (f : α → Traced β) :
    (x >>= f).calls = x.calls ++ (f x.val).calls := by
  simp only [calls, log_bind, List.filterMap_append]

@[simp] theorem calls_map (f : α → β) (x : Traced α) : (f <$> x).calls = x.calls := by
  simp only [calls, log_map]

/-- Reporting an event is not a call. -/
@[simp] theorem calls_report (e : Event) : (report e).calls = [] := rfl

@[simp] theorem events_pure (a : α) : (pure a : Traced α).events = [] := rfl

/-- The events of a sequence are those of its parts, in order. -/
@[simp] theorem events_bind (x : Traced α) (f : α → Traced β) :
    (x >>= f).events = x.events ++ (f x.val).events := by
  simp only [events, log_bind, List.filterMap_append]

@[simp] theorem events_report (e : Event) : (report e).events = [e] := rfl

/-- A call is not an event. -/
@[simp] theorem events_call (w : String) (op : Operation) : (call w op).events = [] := rfl

end Traced

end CursorTree
