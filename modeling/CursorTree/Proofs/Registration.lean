/-
CursorTree.Proofs.Registration — names and numbers of kinds, with any
number of callers at once.

A caller registers a name in two steps, and between them others take steps
of their own.  So a name that was not found may be there by the time it is
added, and so may any other name.  Each caller has a program of calls, and
a schedule says whose turn it is; `one_to_one` is about every set of
programs and every schedule.

* `table` is the registry seen as one list, the built-in names in front.  A
  look-up searches it, a number is a position in it, and an addition appends
  to it or leaves it alone (`lookup?_eq_table`, `name_eq_table`,
  `table_commit`).  What is stable about the numbers is what is stable about
  positions in a list that grows at its end.
* `Consistent` is the invariant: no name is in the table twice, and whatever
  kind was answered for a name is the one that a look-up finds now.  It is
  kept by every step (`consistent_step`) and so by every run
  (`consistent_runAll`).

A number is a 32-bit word, and positions beyond a word would start over at
the built-in kinds.  This is the one place where the number of new names
matters (`toNat_number_of_lookup?`).
-/
import CursorTree.Kinds
import Mathlib.Algebra.Ring.Nat
import Mathlib.Data.List.Perm.Subperm
import Mathlib.Logic.Function.Basic

namespace CursorTree

namespace Kinds

/-! ## 1. One table -/

/-- Every name that has a number, in the order of the numbers. -/
def table (r : Kinds) : List String := Kind.builtin ++ r.names

/-- The kind at a position of the table. -/
def kindAt (i : Nat) : Kind := ⟨UInt32.ofNat i⟩

theorem lookup?_eq_table (r : Kinds) (n : String) :
    r.lookup? n = (r.table.idxOf? n).map kindAt := by
  unfold lookup? table
  simp only [List.idxOf?, List.findIdx?_append]
  cases Kind.builtin.findIdx? (· == n) with
  | some i => rfl
  | none =>
    cases r.names.findIdx? (· == n) with
    | none => rfl
    | some i => simp [Kind.registered, kindAt, Nat.add_comm]

theorem name_eq_table (r : Kinds) (k : Kind) :
    r.name k = r.table[k.number.toNat]?.getD "invalid" := by
  unfold name table
  rw [List.getElem?_append]
  split
  next n hn =>
    obtain ⟨hlt, -⟩ := List.getElem?_eq_some_iff.1 hn
    rw [if_pos hlt, hn]
    rfl
  next hnone =>
    have hge := List.getElem?_eq_none_iff.1 hnone
    rw [if_neg (Nat.not_lt.2 hge), List.getD_eq_getElem?_getD]

theorem names_commit (r : Kinds) (n : String) :
    (r.commit n).2.names = if n ∈ r.names then r.names else r.names ++ [n] := by
  unfold commit
  cases hfind : r.names.idxOf? n with
  | none => rw [if_neg (List.idxOf?_eq_none_iff.1 hfind)]
  | some i =>
    obtain ⟨hlt, hat, -⟩ := List.idxOf?_eq_some_iff.1 hfind
    rw [if_pos (hat ▸ List.getElem_mem hlt)]

theorem table_commit (r : Kinds) (n : String) :
    (r.commit n).2.table = if n ∈ r.names then r.table else r.table ++ [n] := by
  unfold table
  rw [names_commit]
  split
  · rfl
  · exact (List.append_assoc ..).symm

theorem mem_table {r : Kinds} {n : String} : n ∈ r.table ↔ n ∈ Kind.builtin ∨ n ∈ r.names :=
  List.mem_append

theorem lookup?_eq_none_iff {r : Kinds} {n : String} :
    r.lookup? n = none ↔ n ∉ Kind.builtin ∧ n ∉ r.names := by
  rw [lookup?_eq_table, Option.map_eq_none_iff, List.idxOf?_eq_none_iff, mem_table, not_or]

/-- A kind that is found stays with its name, whatever is added. -/
theorem lookup?_commit_of_some {r : Kinds} {n : String} {k : Kind} (h : r.lookup? n = some k)
    (m : String) : (r.commit m).2.lookup? n = some k := by
  rw [lookup?_eq_table] at h ⊢
  rw [table_commit]
  split
  · exact h
  · obtain ⟨i, hi, hk⟩ := Option.map_eq_some_iff.1 h
    rw [List.idxOf?] at hi ⊢
    rw [List.findIdx?_append, hi]
    simp [hk]

/-- A name that is not built in is found after its addition, with the kind
that the addition answered. -/
theorem lookup?_commit_self {r : Kinds} {n : String} (hn : n ∉ Kind.builtin) :
    (r.commit n).2.lookup? n = some (r.commit n).1 := by
  have hbuiltin := List.idxOf?_eq_none_iff.2 hn
  unfold commit lookup?
  simp only [hbuiltin]
  cases hfind : r.names.idxOf? n with
  | some i => simp [hfind]
  | none =>
    rw [List.idxOf?] at hfind
    simp [List.idxOf?, List.findIdx?_append, hfind]

theorem table_nodup_commit {r : Kinds} {n : String} (h : r.table.Nodup) (hn : n ∉ Kind.builtin) :
    (r.commit n).2.table.Nodup := by
  rw [table_commit]
  split
  · exact h
  next hnew =>
    have hfresh : n ∉ r.table := by simp [mem_table, hn, hnew]
    simpa [List.nodup_append] using ⟨h, fun a ha heq => hfresh (heq ▸ ha)⟩

section Bounded

variable {r : Kinds} {n : String} {k : Kind} (hlen : r.table.length ≤ UInt32.size)
include hlen

/-- While the table fits into a word, the number of a kind is the position
of its name. -/
theorem toNat_number_of_lookup? (h : r.lookup? n = some k) :
    r.table[k.number.toNat]? = some n := by
  rw [lookup?_eq_table] at h
  obtain ⟨i, hi, rfl⟩ := Option.map_eq_some_iff.1 h
  obtain ⟨hlt, hat, -⟩ := List.idxOf?_eq_some_iff.1 hi
  have hnumber : (kindAt i).number.toNat = i :=
    UInt32.toNat_ofNat_of_lt' (Nat.lt_of_lt_of_le hlt hlen)
  rw [hnumber, List.getElem?_eq_getElem hlt, hat]

theorem name_of_lookup? (h : r.lookup? n = some k) : r.name k = n := by
  rw [name_eq_table, toNat_number_of_lookup? hlen h]
  rfl

end Bounded

/-! ## 2. Callers and their calls -/

/-- What can be asked of a registry. -/
inductive Call where
  | register (name : String)
  | lookup (name : String)
  | name (k : Kind)
  deriving DecidableEq

/-- What a registry answers. -/
inductive Reply where
  | kind (k : Kind)
  | unknown (u : Unknown)
  | name (text : String)
  deriving DecidableEq

/-- A call that was answered. -/
structure Event where
  caller : Nat
  call : Call
  reply : Reply

/-- A kind was answered for a name. -/
def Event.Returned (e : Event) (n : String) (k : Kind) : Prop :=
  (e.call = .register n ∨ e.call = .lookup n) ∧ e.reply = .kind k

/-- An event that agrees with a name having a kind: calls with the name
answer the kind, and calls with the kind the name. -/
structure Event.Confirms (e : Event) (n : String) (k : Kind) : Prop where
  register : e.call = .register n → e.reply = .kind k
  lookup : e.call = .lookup n → e.reply = .kind k
  name : e.call = .name k → e.reply = .name n

/-- A registry and those who call it. -/
structure Shared where
  kinds : Kinds := {}
  /-- The calls that a caller has not begun. -/
  todo : Nat → List Call
  /-- The name that a caller has looked up in vain and is about to add. -/
  waiting : Nat → Option String := fun _ => none
  /-- The calls answered so far, the latest first. -/
  history : List Event := []
  /-- The names that were appended, each with the kind answered for it, in
  the order of the steps that appended them. -/
  appended : List (String × Kind) := []

namespace Shared

/-- Every caller before its first call. -/
def start (programs : Nat → List Call) : Shared := { todo := programs }

/-- A call is answered. -/
def answer (s : Shared) (c : Nat) (call : Call) (reply : Reply) : Shared :=
  { s with history := ⟨c, call, reply⟩ :: s.history }

/-- The first step of a call.  It is the only one, except for the
registration of a name that is not found. -/
def enter (s : Shared) (c : Nat) : Call → Shared
  | .register n =>
    match s.kinds.lookup? n with
    | some k => s.answer c (.register n) (.kind k)
    | none => { s with waiting := Function.update s.waiting c (some n) }
  | .lookup n =>
    match s.kinds.lookup n with
    | .ok k => s.answer c (.lookup n) (.kind k)
    | .error u => s.answer c (.lookup n) (.unknown u)
  | .name k => s.answer c (.name k) (.name (s.kinds.name k))

/-- A caller adds the name that it waits for. -/
def add (s : Shared) (c : Nat) (n : String) : Shared :=
  { s with
    kinds := (s.kinds.commit n).2
    waiting := Function.update s.waiting c none
    appended :=
      if (s.kinds.commit n).2 = s.kinds then s.appended
      else s.appended ++ [(n, (s.kinds.commit n).1)] }

/-- The second step of a registration. -/
def complete (s : Shared) (c : Nat) (n : String) : Shared :=
  (s.add c n).answer c (.register n) (.kind (s.kinds.commit n).1)

/-- A caller takes its next step, if it has one to take. -/
def step (s : Shared) (c : Nat) : Shared :=
  match s.waiting c with
  | some n => s.complete c n
  | none =>
    match s.todo c with
    | [] => s
    | call :: rest => { s with todo := Function.update s.todo c rest }.enter c call

/-- Callers take steps in the order of a schedule. -/
def runAll (s : Shared) (schedule : List Nat) : Shared := schedule.foldl step s

end Shared

/-- A name that is not built in and that some caller is going to register. -/
def Wanted (programs : Nat → List Call) (n : String) : Prop :=
  n ∉ Kind.builtin ∧ ∃ c, .register n ∈ programs c

/-- There are fewer new names than numbers that are free. -/
def FewNames (programs : Nat → List Call) : Prop :=
  ∀ ns : List String, ns.Nodup → (∀ n ∈ ns, Wanted programs n) → ns.length < 2 ^ 32 - 3

/-- The naming of kinds is stable and one to one. -/
structure OneToOne (s : Shared) : Prop where
  nodup : s.kinds.names.Nodup
  not_builtin : ∀ n ∈ s.kinds.names, n ∉ Kind.builtin
  /-- A kind that was answered for a name has this name, and is what the
  name will find. -/
  standing : ∀ e ∈ s.history, ∀ n k, e.Returned n k →
    s.kinds.name k = n ∧ s.kinds.lookup n = .ok k ∧ s.kinds.register n = (k, s.kinds)
  /-- Whoever called later was answered accordingly. -/
  later : ∀ after e before, s.history = after ++ e :: before → ∀ n k, e.Returned n k →
    ∀ e' ∈ after, e'.Confirms n k
  /-- A registration that was answered has answered a kind. -/
  registered : ∀ e ∈ s.history, ∀ n, e.call = .register n → ∃ k, e.reply = .kind k
  injective : ∀ e ∈ s.history, ∀ e' ∈ s.history, ∀ n n' k k', e.Returned n k →
    e'.Returned n' k' → (k = k' ↔ n = n')
  unknown_iff : ∀ n, s.kinds.lookup n = .error ⟨n⟩ ↔ n ∉ Kind.builtin ∧ n ∉ s.kinds.names
  /-- The names appended are those stored, and their kinds are numbered from
  three on. -/
  numbered : s.appended.map (·.1) = s.kinds.names ∧
    s.appended.map (·.2.number.toNat) = List.range' 3 s.appended.length
  /-- A kind answered for a new name is the one that its appending gave. -/
  given : ∀ e ∈ s.history, ∀ n k, e.Returned n k → n ∉ Kind.builtin → (n, k) ∈ s.appended

/-! ## 3. What every step keeps -/

/-- The answer to a call is the one that a registry gives. -/
def Event.AnsweredBy (e : Event) (r : Kinds) : Prop :=
  match e.call with
  | .register n => ∃ k, e.reply = .kind k ∧ r.lookup? n = some k
  | .lookup n =>
    match r.lookup? n with
    | some k => e.reply = .kind k
    | none => e.reply = .unknown ⟨n⟩
  | .name k => e.reply = .name (r.name k)

theorem Event.AnsweredBy.lookup?_of_returned {e : Event} {r : Kinds} (h : e.AnsweredBy r)
    {n : String} {k : Kind} (hret : e.Returned n k) : r.lookup? n = some k := by
  obtain ⟨hcall | hcall, hreply⟩ := hret
  · simp only [AnsweredBy, hcall, hreply] at h
    obtain ⟨k', hk', hfound⟩ := h
    cases hk'
    exact hfound
  · simp only [AnsweredBy, hcall, hreply] at h
    cases hfound : r.lookup? n with
    | none => simp [hfound] at h
    | some k' =>
      simp only [hfound, Reply.kind.injEq] at h
      rw [h]

theorem Event.AnsweredBy.confirms {e : Event} {r : Kinds} (h : e.AnsweredBy r) {n : String}
    {k : Kind} (hlookup : r.lookup? n = some k) (hname : r.name k = n) : e.Confirms n k := by
  refine ⟨fun hcall => ?_, fun hcall => ?_, fun hcall => ?_⟩
  · simp only [AnsweredBy, hcall, hlookup] at h
    obtain ⟨k', hreply, hk'⟩ := h
    cases hk'
    exact hreply
  · simpa only [AnsweredBy, hcall, hlookup] using h
  · simpa only [AnsweredBy, hcall, hname] using h

structure Consistent (programs : Nat → List Call) (s : Shared) : Prop where
  nodup : s.kinds.table.Nodup
  wanted : ∀ n ∈ s.kinds.names, Wanted programs n
  waiting : ∀ c n, s.waiting c = some n → Wanted programs n
  todo : ∀ c, ∀ call ∈ s.todo c, call ∈ programs c
  found : ∀ e ∈ s.history, ∀ n k, e.Returned n k → s.kinds.lookup? n = some k
  ordered : s.history.Pairwise fun e' e => ∀ n k, e.Returned n k → e'.Confirms n k
  registered : ∀ e ∈ s.history, ∀ n, e.call = .register n → ∃ k, e.reply = .kind k
  appended : s.appended = s.kinds.names.mapIdx fun i n => (n, Kind.registered i)

variable {programs : Nat → List Call} {s : Shared}

theorem consistent_start (programs : Nat → List Call) : Consistent programs (.start programs) where
  nodup := by simp [table, Shared.start, Kind.builtin]
  wanted _ hn := absurd hn List.not_mem_nil
  waiting _ _ h := nomatch h
  todo _ _ h := h
  found _ he := absurd he List.not_mem_nil
  ordered := .nil
  registered _ he := absurd he List.not_mem_nil
  appended := rfl

theorem Consistent.table_length_le (h : Consistent programs s) (few : FewNames programs) :
    s.kinds.table.length ≤ UInt32.size := by
  have hnames : s.kinds.names.Nodup := (List.nodup_append.1 h.nodup).2.1
  have hlen := few s.kinds.names hnames h.wanted
  have hbuiltin : Kind.builtin.length = 3 := rfl
  simp only [table, List.length_append, hbuiltin, UInt32.size]
  omega

/-- One more call is answered, by the registry as it is now. -/
theorem Consistent.answer (h : Consistent programs s) (few : FewNames programs) {c : Nat}
    {call : Call} {reply : Reply} (he : Event.AnsweredBy ⟨c, call, reply⟩ s.kinds) :
    Consistent programs (s.answer c call reply) := by
  refine { h with found := ?_, ordered := ?_, registered := ?_ }
  · intro e hmem n k hret
    rcases List.mem_cons.1 hmem with rfl | hmem
    · exact he.lookup?_of_returned hret
    · exact h.found e hmem n k hret
  · refine List.pairwise_cons.2 ⟨fun e hmem n k hret => ?_, h.ordered⟩
    have hfound := h.found e hmem n k hret
    exact he.confirms hfound (name_of_lookup? (h.table_length_le few) hfound)
  · intro e hmem n hcall
    rcases List.mem_cons.1 hmem with rfl | hmem
    · simp only at hcall
      subst hcall
      obtain ⟨k, hreply, -⟩ := he
      exact ⟨k, hreply⟩
    · exact h.registered e hmem n hcall

theorem consistent_enter (h : Consistent programs s) (few : FewNames programs) (c : Nat)
    {call : Call} (hcall : call ∈ programs c) : Consistent programs (s.enter c call) := by
  cases call with
  | register n =>
    simp only [Shared.enter]
    cases hfind : s.kinds.lookup? n with
    | some k => exact h.answer few ⟨k, rfl, hfind⟩
    | none =>
      refine { h with waiting := fun c' m hm => ?_ }
      by_cases hc : c' = c
      · subst hc
        simp only [Function.update_self, Option.some.injEq] at hm
        subst hm
        exact ⟨(lookup?_eq_none_iff.1 hfind).1, c', hcall⟩
      · simp only [Function.update_of_ne hc] at hm
        exact h.waiting c' m hm
  | lookup n =>
    simp only [Shared.enter, lookup]
    cases hfind : s.kinds.lookup? n with
    | some k => exact h.answer few (by simp [Event.AnsweredBy, hfind])
    | none => exact h.answer few (by simp [Event.AnsweredBy, hfind])
  | name k => exact h.answer few rfl

/-- What was appended grows exactly when the registry does. -/
theorem Consistent.appended_commit (h : Consistent programs s) (n : String) :
    (if (s.kinds.commit n).2 = s.kinds then s.appended
      else s.appended ++ [(n, (s.kinds.commit n).1)]) =
      (s.kinds.commit n).2.names.mapIdx fun i m => (m, Kind.registered i) := by
  unfold commit
  cases s.kinds.names.idxOf? n with
  | some i => simp [h.appended]
  | none =>
    have hgrown : (⟨s.kinds.names ++ [n]⟩ : Kinds) ≠ s.kinds := by
      intro heq
      have hlen := congrArg (fun r => r.names.length) heq
      simp at hlen
    simp [hgrown, h.appended]

theorem consistent_add (h : Consistent programs s) (c : Nat) {n : String}
    (hn : Wanted programs n) : Consistent programs (s.add c n) := by
  refine { h with nodup := ?_, wanted := ?_, waiting := ?_, found := ?_, appended := ?_ }
  · exact table_nodup_commit h.nodup hn.1
  · intro m hm
    simp only [Shared.add, names_commit] at hm
    split at hm
    · exact h.wanted m hm
    · rcases List.mem_append.1 hm with hm | hm
      · exact h.wanted m hm
      · rw [List.mem_singleton.1 hm]
        exact hn
  · intro c' m hm
    by_cases hc : c' = c
    · subst hc
      simp [Shared.add] at hm
    · simp only [Shared.add, Function.update_of_ne hc] at hm
      exact h.waiting c' m hm
  · intro e he m k hret
    exact lookup?_commit_of_some (h.found e he m k hret) n
  · exact h.appended_commit n

/-- The second step of a registration keeps everything, whatever has happened
since the first. -/
theorem consistent_complete (h : Consistent programs s) (few : FewNames programs) (c : Nat)
    {n : String} (hn : Wanted programs n) : Consistent programs (s.complete c n) :=
  (consistent_add h c hn).answer few ⟨_, rfl, lookup?_commit_self hn.1⟩

theorem consistent_step (h : Consistent programs s) (few : FewNames programs) (c : Nat) :
    Consistent programs (s.step c) := by
  unfold Shared.step
  split
  next n hwaiting => exact consistent_complete h few c (h.waiting c n hwaiting)
  next =>
    split
    next => exact h
    next call rest htodo =>
      have hrest : Consistent programs { s with todo := Function.update s.todo c rest } := by
        refine { h with todo := fun c' call' hmem => ?_ }
        by_cases hc : c' = c
        · subst hc
          simp only [Function.update_self] at hmem
          exact h.todo c' call' (htodo ▸ List.mem_cons_of_mem _ hmem)
        · simp only [Function.update_of_ne hc] at hmem
          exact h.todo c' call' hmem
      exact consistent_enter hrest few c (h.todo c call (htodo ▸ List.mem_cons_self))

theorem consistent_runAll (few : FewNames programs) (schedule : List Nat) :
    ∀ s : Shared, Consistent programs s → Consistent programs (s.runAll schedule) := by
  induction schedule with
  | nil => exact fun _ h => h
  | cons c schedule ih => exact fun s h => ih _ (consistent_step h few c)

/-! ## 4. The naming of kinds -/

theorem Consistent.numbers (h : Consistent programs s) (few : FewNames programs) :
    s.appended.map (·.2.number.toNat) = List.range' 3 s.appended.length := by
  have hlen := h.table_length_le few
  have hbuiltin : Kind.builtin.length = 3 := rfl
  simp only [table, List.length_append, hbuiltin] at hlen
  rw [h.appended]
  refine List.ext_getElem (by simp) fun i hi _ => ?_
  simp only [List.length_map, List.length_mapIdx] at hi
  have hnumber : (UInt32.ofNat (3 + i)).toNat = 3 + i := UInt32.toNat_ofNat_of_lt' (by omega)
  simp only [List.getElem_map, List.getElem_mapIdx, List.getElem_range', Kind.registered,
    hbuiltin, hnumber, Nat.one_mul]

theorem Consistent.mem_appended (h : Consistent programs s) {n : String} {k : Kind}
    (hfound : s.kinds.lookup? n = some k) (hn : n ∉ Kind.builtin) : (n, k) ∈ s.appended := by
  unfold lookup? at hfound
  simp only [List.idxOf?_eq_none_iff.2 hn] at hfound
  obtain ⟨i, hi, rfl⟩ := Option.map_eq_some_iff.1 hfound
  obtain ⟨hlt, hat, -⟩ := List.idxOf?_eq_some_iff.1 hi
  rw [h.appended, List.mem_mapIdx]
  exact ⟨i, hlt, by rw [hat]⟩

/-- However the calls of any number of callers are interleaved, as long as
there are numbers for all new names: names and kinds belong to each other
one to one, a kind once answered is answered ever after, and new names are
numbered from three on in the order in which they are stored. -/
theorem one_to_one (programs : Nat → List Call) (few : FewNames programs) (schedule : List Nat) :
    OneToOne ((Shared.start programs).runAll schedule) := by
  have h := consistent_runAll few schedule _ (consistent_start programs)
  generalize (Shared.start programs).runAll schedule = s at h
  have hnames : ∀ e ∈ s.history, ∀ n k, e.Returned n k → s.kinds.name k = n :=
    fun e he n k hret => name_of_lookup? (h.table_length_le few) (h.found e he n k hret)
  obtain ⟨-, hnodup, hdisjoint⟩ := List.nodup_append.1 h.nodup
  constructor
  case nodup => exact hnodup
  case not_builtin => exact fun n hn hbuiltin => hdisjoint n hbuiltin n hn rfl
  case standing =>
    intro e he n k hret
    have hfound := h.found e he n k hret
    refine ⟨hnames e he n k hret, ?_, ?_⟩
    · simp only [lookup, hfound]
    · simp only [register, hfound]
  case later =>
    intro after e before hsplit n k hret e' he'
    have hordered := h.ordered
    rw [hsplit, List.pairwise_append] at hordered
    exact hordered.2.2 e' he' e List.mem_cons_self n k hret
  case registered => exact h.registered
  case injective =>
    intro e he e' he' n n' k k' hret hret'
    constructor
    · rintro rfl
      rw [← hnames e he n k hret, hnames e' he' n' k hret']
    · rintro rfl
      have hsame := (h.found e he n k hret).symm.trans (h.found e' he' n k' hret')
      exact Option.some.inj hsame
  case unknown_iff =>
    intro n
    rw [← lookup?_eq_none_iff, lookup]
    cases s.kinds.lookup? n <;> simp
  case numbered =>
    refine ⟨?_, h.numbers few⟩
    rw [h.appended]
    exact List.ext_getElem (by simp) fun i _ _ => by simp
  case given => exact fun e he n k hret hn => h.mem_appended (h.found e he n k hret) hn

/-- Two callers that both miss a name before either of them adds it, and a
third that adds another name in between. -/
def rivals : Nat → List Call
  | 0 => [.register "and", .name ⟨3⟩]
  | 1 => [.register "and", .register "null", .lookup "or"]
  | 2 => [.lookup "or", .register "or"]
  | _ => []

theorem rivals_one_to_one :
    FewNames rivals ∧
      (((Shared.start rivals).runAll [0, 1, 2, 2, 1, 2, 0, 0, 1, 1]).history.map
        fun e => (e.caller, e.reply)) =
        [(1, .kind ⟨4⟩), (1, .kind ⟨1⟩), (0, .name "and"), (0, .kind ⟨3⟩), (2, .kind ⟨4⟩),
          (1, .kind ⟨3⟩), (2, .unknown ⟨"or"⟩)] ∧
      OneToOne ((Shared.start rivals).runAll [0, 1, 2, 2, 1, 2, 0, 0, 1, 1]) := by
  have few : FewNames rivals := by
    intro ns hnodup hwanted
    have hsub : ns ⊆ ["and", "or"] := by
      intro n hn
      obtain ⟨hnew, c, hc⟩ := hwanted n hn
      match c with
      | 0 | 1 | 2 => simp [rivals, Kind.builtin] at hc hnew ⊢; tauto
      | c + 3 => simp [rivals] at hc
    have hlen := (hnodup.subperm hsub).length_le
    simp only [List.length_cons, List.length_nil] at hlen
    omega
  exact ⟨few, by decide +kernel, one_to_one rivals few _⟩

end Kinds

end CursorTree
