/-
CursorTree.Proofs.ListHistory — a list does what its history says.

A run of a list is a sequence of requests: it is enumerated, tested,
added to, reset, tagged and looked at, in any order.  Its history is what
has been asked and what was answered, the latest first.  Four things are
read off a history alone, without looking at the list: the values added
(`added`), those enumerated since the last reset (`taken`), the one
confirmed last (`confirmed`), and everything `next` has answered (`nexts`).

`follows_history` says that these determine what the list does next.  It
rests on an invariant of the single step (`tracks_ask`) carried along a run
(`tracks_askAll`): the position of the list is the number of values taken,
and the values taken are those in front of the position.  The two
statements about what comes later have an induction of their own over the
requests that follow: that an exhausted list stays exhausted
(`spent_askAll`), and that a test leaves no trace in the enumeration
(`alike_askAll`).  The second compares two lists that may stand on
different values.
-/
import CursorTree.Cursor.Bindings
import CursorTree.Cursor.Copy
import CursorTree.Cursor.Describe
import CursorTree.Cursor.Pull
import CursorTree.Cursor.Reset

namespace CursorTree

/-- What can be asked of a list. -/
inductive ListRequest where
  | next
  | check (v : Value)
  | add (v : Value)
  | reset
  | addTag (name : String)
  | addFixedTag (name : String) (v : Value)
  | mergeTags (other : Tags)
  | last
  | size
  | cost
  | writeTags (row : Row)
  | describe (indent : Nat)
  | copy

/-- What a list answers. -/
inductive ListAnswer where
  | nothing
  | value (v : Option Value)
  | flag (b : Bool)
  | size (n : UInt64) (exact : Bool)
  | cost (c : Cost)
  | row (r : Row)
  | text (s : String)
  | copied (c : Cursor)

/-- Requests in the order of time, the latest first, with their answers. -/
abbrev History := List (ListRequest × ListAnswer)

/-- Requests after which an exhausted list may have a value again. -/
def ListRequest.Revives : ListRequest → Prop
  | add _ | reset => True
  | _ => False

/-- A list with a value added at its end.  Nothing is added to other
cursors. -/
def Cursor.append (v : Value) : Cursor → Cursor
  | listing l => listing (l.add v)
  | c => c

/-- What a cursor answers to a request, and what becomes of it and of the
supply of identities. -/
def Cursor.respond (c : Cursor) (s : Supply) : ListRequest → ListAnswer × Cursor × Supply
  | .next => (.value c.next.val.1, c.next.val.2, s)
  | .check v => (.flag (c.check v).val.1, (c.check v).val.2, s)
  | .add v => (.nothing, c.append v, s)
  | .reset => (.nothing, c.reset.val, s)
  | .addTag n => (.nothing, c.retag (·.add n), s)
  | .addFixedTag n v => (.nothing, c.retag (·.addFixed n v), s)
  | .mergeTags other => (.nothing, c.retag (·.merge other), s)
  | .last => (.value c.last, c, s)
  | .size => (.size c.size.1 c.size.2, c, s)
  | .cost => (.cost c.cost, c, s)
  | .writeTags row => (.row (c.writeTags row).val, c, s)
  | .describe indent => (.text (c.describe indent), c, s)
  | .copy => (.copied (c.copy.outcome s).1, c, (c.copy.outcome s).2)

/-- A cursor with the history of what it has been asked. -/
structure ListRun where
  history : History
  cursor : Cursor
  supply : Supply

namespace ListRun

/-- A list that has just been made. -/
def start (vs : List Value) (s : Supply) : ListRun :=
  ⟨[], .listing ⟨{ uid := s.issue.1 }, vs, 0⟩, s.issue.2⟩

/-- What would be answered to a request now. -/
def answer (run : ListRun) (r : ListRequest) : ListAnswer :=
  (run.cursor.respond run.supply r).1

/-- The run after one more request. -/
def ask (run : ListRun) (r : ListRequest) : ListRun :=
  ⟨(r, run.answer r) :: run.history, (run.cursor.respond run.supply r).2.1,
    (run.cursor.respond run.supply r).2.2⟩

/-- The run after more requests, in the order given. -/
def askAll (run : ListRun) (rs : List ListRequest) : ListRun := rs.foldl ask run

end ListRun

namespace History

/-- The values added so far, in order. -/
def added : History → List Value
  | [] => []
  | (.add v, _) :: past => added past ++ [v]
  | _ :: past => added past

/-- The values that `next` has answered since the last reset, in order. -/
def taken : History → List Value
  | [] => []
  | (.next, .value (some v)) :: past => taken past ++ [v]
  | (.reset, _) :: _ => []
  | _ :: past => taken past

/-- The value of the latest successful `next` or test since the last reset. -/
def confirmed : History → Option Value
  | [] => none
  | (.next, .value (some v)) :: _ => some v
  | (.check v, .flag true) :: _ => some v
  | (.reset, _) :: _ => none
  | _ :: past => confirmed past

/-- Everything that `next` has answered, the latest first. -/
def nexts : History → List (Option Value)
  | [] => []
  | (.next, .value v) :: past => v :: nexts past
  | _ :: past => nexts past

end History

open History

/-- What the history of a run that began with a list of values says about
the list now and later on. -/
structure FollowsHistory (vs : List Value) (run : ListRun) : Prop where
  /-- The values since the last reset were those of the list, in order. -/
  enumerated : ∀ (k : Nat) (v : Value),
    (taken run.history)[k]? = some v → (vs ++ added run.history)[k]? = some v
  /-- No value is left exactly when as many were taken as there are. -/
  exhausted : run.answer .next = .value none ↔
    (taken run.history).length = (vs ++ added run.history).length
  /-- No value comes back without an addition or a reset. -/
  finished : run.answer .next = .value none → ∀ rs : List ListRequest, (∀ r ∈ rs, ¬ r.Revives) →
    (run.askAll rs).answer .next = .value none
  member : ∀ v, run.answer (.check v) = .flag (decide (v ∈ vs ++ added run.history))
  /-- With or without a test, the enumeration goes on alike. -/
  untouched : ∀ (v : Value) (rs : List ListRequest),
    nexts ((run.ask (.check v)).askAll rs).history = nexts (run.askAll rs).history
  standing : run.answer .last = .value (confirmed run.history)
  failed_next : run.answer .next = .value none → (run.ask .next).cursor = run.cursor
  failed_check : ∀ v, run.answer (.check v) = .flag false →
    (run.ask (.check v)).cursor = run.cursor
  bounded : ∃ l, run.cursor = .listing l ∧ l.position ≤ (vs ++ added run.history).length

/-! ## 1. One step of a list -/

/-- A list answers the value at its position and moves behind it; at its
end it answers none and stays as it is. -/
theorem Cursor.next_listing (l : Listing) :
    (Cursor.listing l).next.val = match l.values[l.position]? with
      | some v => (some v, .listing { l with head := l.head.standOn v, position := l.position + 1 })
      | none => (none, .listing l) := by
  simp only [Cursor.next, Cursor.pull, Listing.pull, Listing.pending, Traced.val_bind,
    Traced.val_pure]
  cases hv : l.values[l.position]? with
  | none =>
    rw [List.drop_eq_nil_of_le (List.getElem?_eq_none_iff.1 hv)]
    rfl
  | some v =>
    obtain ⟨hlt, hget⟩ := List.getElem?_eq_some_iff.1 hv
    rw [List.drop_eq_getElem_cons hlt, hget]
    rfl

theorem Cursor.check_listing (v : Value) (l : Listing) :
    ((Cursor.listing l).check v).val = if v ∈ l.values then
      (true, .listing { l with head := l.head.standOn v }) else (false, .listing l) := by
  rw [Cursor.check]
  split <;> rfl

/-! ## 2. The state of a list is determined by its history -/

/-- A list is in the state that its history says. -/
structure Tracks (vs : List Value) (run : ListRun) (l : Listing) : Prop where
  cursor : run.cursor = .listing l
  values : l.values = vs ++ added run.history
  position : l.position = (taken run.history).length
  taken_eq : taken run.history = l.values.take l.position
  last : l.head.last = confirmed run.history

theorem Tracks.position_le {vs : List Value} {run : ListRun} {l : Listing} (t : Tracks vs run l) :
    l.position ≤ l.values.length := by
  have hlen := congrArg List.length t.taken_eq
  rw [← t.position, List.length_take] at hlen
  omega

theorem tracks_start (vs : List Value) (s : Supply) :
    ∃ l, Tracks vs (ListRun.start vs s) l :=
  ⟨_, rfl, (List.append_nil vs).symm, rfl, rfl, rfl⟩

section Step

variable {vs : List Value} {run : ListRun} {l : Listing}

theorem Tracks.answer_next (t : Tracks vs run l) :
    run.answer .next = .value l.values[l.position]? := by
  rw [ListRun.answer, Cursor.respond, t.cursor, Cursor.next_listing]
  cases l.values[l.position]? <;> rfl

theorem Tracks.answer_check (t : Tracks vs run l) (v : Value) :
    run.answer (.check v) = .flag (decide (v ∈ l.values)) := by
  rw [ListRun.answer, Cursor.respond, t.cursor, Cursor.check_listing]
  by_cases hv : v ∈ l.values
  · rw [if_pos hv, decide_eq_true hv]
  · rw [if_neg hv, decide_eq_false hv]

/-- A step keeps the list in the state that its history says. -/
theorem tracks_ask (t : Tracks vs run l) (r : ListRequest) : ∃ m, Tracks vs (run.ask r) m := by
  have hle := t.position_le
  obtain ⟨history, cursor, supply⟩ := run
  obtain ⟨hcursor, hvalues, hposition, htaken, hlast⟩ := t
  simp only at hcursor hvalues hposition htaken hlast
  subst hcursor
  cases r with
  | next =>
    simp only [ListRun.ask, ListRun.answer, Cursor.respond, Cursor.next_listing]
    cases hv : l.values[l.position]? with
    | none => exact ⟨l, rfl, hvalues, hposition, htaken, hlast⟩
    | some v =>
      refine ⟨_, rfl, hvalues, ?_, ?_, rfl⟩
      · rw [taken, List.length_append, List.length_singleton, ← hposition]
      · rw [taken, htaken, List.take_add_one, hv]
        rfl
  | check v =>
    simp only [ListRun.ask, ListRun.answer, Cursor.respond, Cursor.check_listing]
    split
    next hv => exact ⟨_, rfl, hvalues, hposition, htaken, rfl⟩
    next hv => exact ⟨l, rfl, hvalues, hposition, htaken, hlast⟩
  | add v =>
    refine ⟨l.add v, rfl, ?_, hposition, ?_, hlast⟩
    · rw [Listing.add, hvalues, List.append_assoc]
      rfl
    · rw [Listing.add, List.take_append_of_le_length hle]
      exact htaken
  | reset => exact ⟨_, rfl, hvalues, rfl, rfl, rfl⟩
  | addTag n | addFixedTag n v | mergeTags other =>
    exact ⟨_, rfl, hvalues, hposition, htaken, hlast⟩
  | last | size | cost | writeTags row | describe indent | copy =>
    exact ⟨l, rfl, hvalues, hposition, htaken, hlast⟩

theorem tracks_askAll (t : Tracks vs run l) (rs : List ListRequest) :
    ∃ m, Tracks vs (run.askAll rs) m := by
  induction rs generalizing run l with
  | nil => exact ⟨l, t⟩
  | cons r rs ih =>
    obtain ⟨m, hm⟩ := tracks_ask t r
    exact ih hm

/-! ## 3. An exhausted list stays exhausted -/

theorem Tracks.answer_none_iff (t : Tracks vs run l) :
    run.answer .next = .value none ↔
      (taken run.history).length = (vs ++ added run.history).length := by
  rw [t.answer_next, ListAnswer.value.injEq, List.getElem?_eq_none_iff, ← t.values, ← t.position]
  have hle := t.position_le
  omega

/-- Nothing but an addition or a reset brings a value back. -/
theorem spent_ask (t : Tracks vs run l) (hnone : run.answer .next = .value none)
    {r : ListRequest} (hr : ¬ r.Revives) : (run.ask r).answer .next = .value none := by
  obtain ⟨m, hm⟩ := tracks_ask t r
  have hspent := t.answer_none_iff.1 hnone
  rw [hm.answer_none_iff]
  cases r with
  | next => rw [ListRun.ask, hnone]; exact hspent
  | add v | reset => exact absurd trivial hr
  | check v | addTag n | addFixedTag n v | mergeTags other => exact hspent
  | last | size | cost | writeTags row | describe indent | copy => exact hspent

theorem spent_askAll (t : Tracks vs run l) (hnone : run.answer .next = .value none)
    (rs : List ListRequest) (hrs : ∀ r ∈ rs, ¬ r.Revives) :
    (run.askAll rs).answer .next = .value none := by
  induction rs generalizing run l with
  | nil => exact hnone
  | cons r rs ih =>
    obtain ⟨m, hm⟩ := tracks_ask t r
    exact ih hm (spent_ask t hnone (hrs r List.mem_cons_self))
      fun q hq => hrs q (List.mem_cons_of_mem _ hq)

end Step

/-! ## 4. A test leaves no trace in the enumeration -/

/-- Two runs whose lists are the same but for what they stand on, and have
been enumerated alike. -/
structure Alike (a b : ListRun) (l m : Listing) : Prop where
  left : a.cursor = .listing l
  right : b.cursor = .listing m
  values : l.values = m.values
  position : l.position = m.position
  nexts_eq : nexts a.history = nexts b.history

theorem alike_ask {a b : ListRun} {l m : Listing} (h : Alike a b l m) (r : ListRequest) :
    ∃ l' m', Alike (a.ask r) (b.ask r) l' m' := by
  obtain ⟨history, cursor, supply⟩ := a
  obtain ⟨history', cursor', supply'⟩ := b
  obtain ⟨hl, hm, hvalues, hposition, hnexts⟩ := h
  simp only at hl hm hnexts
  subst hl hm
  cases r with
  | next =>
    simp only [ListRun.ask, ListRun.answer, Cursor.respond, Cursor.next_listing, ← hvalues,
      ← hposition]
    cases l.values[l.position]? with
    | none => exact ⟨l, m, rfl, rfl, hvalues, hposition, congrArg (List.cons none) hnexts⟩
    | some v => exact ⟨_, _, rfl, rfl, rfl, rfl, congrArg (List.cons (some v)) hnexts⟩
  | check v =>
    simp only [ListRun.ask, ListRun.answer, Cursor.respond, Cursor.check_listing, ← hvalues]
    split
    next => exact ⟨_, _, rfl, rfl, rfl, hposition, hnexts⟩
    next => exact ⟨l, m, rfl, rfl, hvalues, hposition, hnexts⟩
  | add v => exact ⟨_, _, rfl, rfl, congrArg (· ++ [v]) hvalues, hposition, hnexts⟩
  | reset => exact ⟨_, _, rfl, rfl, hvalues, rfl, hnexts⟩
  | addTag n | addFixedTag n v | mergeTags other =>
    exact ⟨_, _, rfl, rfl, hvalues, hposition, hnexts⟩
  | last | size | cost | writeTags row | describe indent | copy =>
    exact ⟨l, m, rfl, rfl, hvalues, hposition, hnexts⟩

theorem alike_askAll {a b : ListRun} {l m : Listing} (h : Alike a b l m)
    (rs : List ListRequest) : nexts (a.askAll rs).history = nexts (b.askAll rs).history := by
  induction rs generalizing a b l m with
  | nil => exact h.nexts_eq
  | cons r rs ih =>
    obtain ⟨l', m', h'⟩ := alike_ask h r
    exact ih h'

theorem alike_check {run : ListRun} {l : Listing} (hl : run.cursor = .listing l) (v : Value) :
    ∃ m, Alike (run.ask (.check v)) run m l := by
  obtain ⟨history, cursor, supply⟩ := run
  simp only at hl
  subst hl
  simp only [ListRun.ask, ListRun.answer, Cursor.respond, Cursor.check_listing]
  split
  next => exact ⟨_, rfl, rfl, rfl, rfl, rfl⟩
  next => exact ⟨l, rfl, rfl, rfl, rfl, rfl⟩

/-! ## 5. The history of a run -/

/-- The history of a list, from when it was made, determines what it does. -/
theorem follows_history (vs : List Value) (s : Supply) (rs : List ListRequest) :
    FollowsHistory vs ((ListRun.start vs s).askAll rs) := by
  obtain ⟨m, start⟩ := tracks_start vs s
  obtain ⟨l, t⟩ := tracks_askAll start rs
  generalize (ListRun.start vs s).askAll rs = run at t
  constructor
  case enumerated =>
    intro k v hk
    rw [t.taken_eq, List.getElem?_take] at hk
    rw [← t.values]
    split at hk
    · exact hk
    · cases hk
  case exhausted => exact t.answer_none_iff
  case finished => exact spent_askAll t
  case member =>
    intro v
    rw [t.answer_check, t.values]
  case untouched =>
    intro v rs'
    obtain ⟨m, h⟩ := alike_check t.cursor v
    exact alike_askAll h rs'
  case standing =>
    rw [← t.last, ListRun.answer, Cursor.respond, t.cursor]
    rfl
  case failed_next =>
    intro hnone
    rw [t.answer_next, ListAnswer.value.injEq] at hnone
    rw [ListRun.ask, Cursor.respond, t.cursor, Cursor.next_listing, hnone]
  case failed_check =>
    intro v hno
    rw [t.answer_check, ListAnswer.flag.injEq, decide_eq_false_iff_not] at hno
    rw [ListRun.ask, Cursor.respond, t.cursor, Cursor.check_listing, if_neg hno]
  case bounded => exact ⟨l, t.cursor, t.values ▸ t.position_le⟩

end CursorTree
