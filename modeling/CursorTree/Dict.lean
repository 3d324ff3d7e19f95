/-
CursorTree.Dict — finite maps from names to values, kept sorted.

A dictionary is a list of entries whose keys strictly increase in code
point order.  The order is carried as a proof, so a dictionary has one
representation only: two dictionaries that answer every look-up alike are
equal (`ext_get?`), and equality of rows of bindings is plain equality.

* `get?` is the view; `get?_insert` says what insertion does to it.
* `keys` is strictly increasing (`keys_pairwise`).
-/

namespace CursorTree

universe u

/-- A finite map from names to values, listed by strictly increasing name. -/
structure Dict (α : Type u) where
  /-- The entries in increasing order of their names. -/
  entries : List (String × α)
  /-- Names strictly increase, so none occurs twice. -/
  increasing : entries.Pairwise (fun a b => a.1 < b.1)

namespace Dict

variable {α : Type u}

instance [DecidableEq α] : DecidableEq (Dict α) := fun a b =>
  if h : a.entries = b.entries then
    isTrue (by cases a; cases b; cases h; rfl)
  else
    isFalse (fun e => h (congrArg entries e))

/-- The dictionary without entries. -/
def empty : Dict α := ⟨[], .nil⟩

instance : Inhabited (Dict α) := ⟨empty⟩

/-- True when there is no entry. -/
def isEmpty (d : Dict α) : Bool := d.entries.isEmpty

/-- The names, in increasing order. -/
def keys (d : Dict α) : List String := d.entries.map (·.1)

/-- The value at a name in a list of entries: the first one listed. -/
def lookup (k : String) : List (String × α) → Option α
  | [] => none
  | (a, x) :: rest => if k = a then some x else lookup k rest

/-- The value at a name. -/
def get? (d : Dict α) (k : String) : Option α := lookup k d.entries

/-- Puts a value at its name's place in a sorted list of entries,
replacing the value that is there. -/
def place (k : String) (x : α) : List (String × α) → List (String × α)
  | [] => [(k, x)]
  | (a, y) :: rest =>
    if k < a then (k, x) :: (a, y) :: rest
    else if k = a then (k, x) :: rest
    else (a, y) :: place k x rest

/-- A name that is neither before nor at another stands after it. -/
theorem lt_of_not_lt_of_ne {a b : String} (h : ¬ a < b) (hne : a ≠ b) : b < a := by
  by_cases hba : b < a
  · exact hba
  · exact absurd (String.le_antisymm (String.not_lt.1 hba) (String.not_lt.1 h)) hne

/-- Every name of a list after placing was there or is the one placed. -/
theorem mem_place {k : String} {x : α} {es : List (String × α)} {e : String × α}
    (h : e ∈ place k x es) : e = (k, x) ∨ e ∈ es := by
  induction es with
  | nil => simpa [place] using h
  | cons a rest ih =>
    simp only [place] at h
    split at h
    · simpa using h
    · split at h
      · rcases List.mem_cons.1 h with h | h
        · exact .inl h
        · exact .inr (List.mem_cons_of_mem _ h)
      · rcases List.mem_cons.1 h with h | h
        · exact .inr (h ▸ List.mem_cons_self)
        · exact (ih h).imp id (List.mem_cons_of_mem _)

/-- Placing keeps the names strictly increasing. -/
theorem place_pairwise {k : String} {x : α} {es : List (String × α)}
    (h : es.Pairwise (fun a b => a.1 < b.1)) :
    (place k x es).Pairwise (fun a b => a.1 < b.1) := by
  induction es with
  | nil => simp [place]
  | cons a rest ih =>
    obtain ⟨ha, hr⟩ := List.pairwise_cons.1 h
    simp only [place]
    split
    next hlt =>
      refine List.pairwise_cons.2 ⟨fun b hb => ?_, h⟩
      rcases List.mem_cons.1 hb with rfl | hb
      · exact hlt
      · exact String.lt_trans hlt (ha b hb)
    next hlt =>
      split
      next heq => exact List.pairwise_cons.2 ⟨fun b hb => heq ▸ ha b hb, hr⟩
      next hne =>
        refine List.pairwise_cons.2 ⟨fun b hb => ?_, ih hr⟩
        rcases mem_place hb with rfl | hb
        · exact lt_of_not_lt_of_ne hlt hne
        · exact ha b hb

/-- Puts a value at a name, replacing the one that is there. -/
def insert (d : Dict α) (k : String) (x : α) : Dict α :=
  ⟨place k x d.entries, place_pairwise d.increasing⟩

/-- The dictionary without the entry at a name. -/
def erase (d : Dict α) (k : String) : Dict α :=
  ⟨d.entries.filter (fun e => e.1 != k), d.increasing.filter _⟩

/-- The dictionary of a list of entries; of two at one name the later counts. -/
def ofList (es : List (String × α)) : Dict α :=
  es.foldl (fun d e => d.insert e.1 e.2) empty

/-- All entries of the second dictionary put into the first. -/
def merge (d e : Dict α) : Dict α :=
  e.entries.foldl (fun d e => d.insert e.1 e.2) d

/-! ## Laws of the view -/

theorem lookup_place (k j : String) (x : α) (es : List (String × α)) :
    lookup j (place k x es) = if j = k then some x else lookup j es := by
  induction es with
  | nil => simp [place, lookup]
  | cons a rest ih =>
    obtain ⟨a, y⟩ := a
    simp only [place]
    split
    · simp [lookup]
    · split
      next heq =>
        subst heq
        by_cases hj : j = k <;> simp [lookup, hj]
      next hlt hne =>
        simp only [lookup, ih]
        by_cases hj : j = k
        · simp [hj, hne]
        · simp [hj]

@[simp] theorem get?_empty (k : String) : (empty : Dict α).get? k = none := rfl

/-- Insertion answers at its own name and leaves every other name alone. -/
@[simp] theorem get?_insert (d : Dict α) (k j : String) (x : α) :
    (d.insert k x).get? j = if j = k then some x else d.get? j :=
  lookup_place k j x d.entries

/-- A name that no entry has is not found. -/
theorem lookup_eq_none {k : String} {es : List (String × α)} (h : ∀ e ∈ es, k ≠ e.1) :
    lookup k es = none := by
  induction es with
  | nil => rfl
  | cons a rest ih =>
    simp only [lookup, if_neg (h a List.mem_cons_self)]
    exact ih fun e he => h e (List.mem_cons_of_mem _ he)

/-- An entry that stands in front of larger names is found nowhere behind. -/
theorem lookup_eq_none_of_lt {k : String} {es : List (String × α)} (h : ∀ e ∈ es, k < e.1) :
    lookup k es = none :=
  lookup_eq_none fun e he heq => String.lt_irrefl k (heq ▸ h e he)

/-- Entries listed in front of others come first. -/
theorem lookup_append (k : String) (es fs : List (String × α)) :
    lookup k (es ++ fs) = (lookup k es).or (lookup k fs) := by
  induction es with
  | nil => rfl
  | cons a rest ih => by_cases hk : k = a.1 <;> simp [lookup, hk, ih]

theorem lookup_filter_ne (k j : String) (es : List (String × α)) :
    lookup j (es.filter fun e => e.1 != k) = if j = k then none else lookup j es := by
  induction es with
  | nil => simp [lookup]
  | cons a rest ih =>
    by_cases hk : a.1 = k
    · have hdrop : ((a :: rest).filter fun e => e.1 != k) = rest.filter fun e => e.1 != k := by
        simp [hk]
      rw [hdrop, ih]
      by_cases hj : j = k <;> simp [lookup, hk, hj]
    · have hkeep :
          ((a :: rest).filter fun e => e.1 != k) = a :: rest.filter fun e => e.1 != k := by
        simp [hk]
      rw [hkeep]
      simp only [lookup, ih]
      by_cases hj : j = k
      · subst hj
        simp [Ne.symm hk]
      · simp [hj]

/-- Erasing forgets its own name and leaves every other name alone. -/
@[simp] theorem get?_erase (d : Dict α) (k j : String) :
    (d.erase k).get? j = if j = k then none else d.get? j :=
  lookup_filter_ne k j d.entries

/-- Erasing some names leaves every other name alone. -/
theorem get?_foldl_erase (d : Dict α) {names : List String} {k : String} (h : k ∉ names) :
    (names.foldl erase d).get? k = d.get? k := by
  induction names generalizing d with
  | nil => rfl
  | cons a names ih =>
    simp only [List.mem_cons, not_or] at h
    rw [List.foldl_cons, ih _ h.2, get?_erase, if_neg h.1]

/-- Sorted lists of entries that answer every look-up alike are equal. -/
theorem eq_of_lookup_eq {es fs : List (String × α)}
    (he : es.Pairwise fun a b => a.1 < b.1) (hf : fs.Pairwise fun a b => a.1 < b.1)
    (h : ∀ k, lookup k es = lookup k fs) : es = fs := by
  induction es generalizing fs with
  | nil =>
    cases fs with
    | nil => rfl
    | cons b fs => simpa [lookup] using h b.1
  | cons a es ih =>
    cases fs with
    | nil => simpa [lookup] using h a.1
    | cons b fs =>
      obtain ⟨ha, he⟩ := List.pairwise_cons.1 he
      obtain ⟨hb, hf⟩ := List.pairwise_cons.1 hf
      have hab : a.1 = b.1 := by
        refine Decidable.byContradiction fun hne => ?_
        by_cases hlt : a.1 < b.1
        · have := lookup_eq_none_of_lt fun e hm => String.lt_trans hlt (hb e hm)
          simpa [lookup, hne, this] using h a.1
        · have hlt := lt_of_not_lt_of_ne hlt hne
          have := lookup_eq_none_of_lt fun e hm => String.lt_trans hlt (ha e hm)
          simpa [lookup, Ne.symm hne, this] using h b.1
      have hval : a.2 = b.2 := by simpa [lookup, hab] using h a.1
      have htail : ∀ k, lookup k es = lookup k fs := by
        intro k
        by_cases hk : k = a.1
        · subst hk
          rw [lookup_eq_none_of_lt ha, lookup_eq_none_of_lt (hab ▸ hb)]
        · simpa [lookup, hk, hab ▸ hk] using h k
      rw [ih he hf htail, Prod.ext hab hval]

/-- Two dictionaries that answer every look-up alike are equal. -/
theorem ext_get? {d e : Dict α} (h : ∀ k, d.get? k = e.get? k) : d = e := by
  obtain ⟨ds, hd⟩ := d
  obtain ⟨es, he⟩ := e
  cases eq_of_lookup_eq hd he h
  rfl

/-- Sorted entries put in one after the other answer at their own names and
leave every other name alone. -/
theorem get?_foldl_insert {β : Type u} (f : β → α) {es : List (String × β)}
    (h : es.Pairwise fun a b => a.1 < b.1) (d : Dict α) (k : String) :
    (es.foldl (fun d e => d.insert e.1 (f e.2)) d).get? k =
      ((lookup k es).map f).or (d.get? k) := by
  induction es generalizing d with
  | nil => rfl
  | cons e es ih =>
    obtain ⟨hlt, hes⟩ := List.pairwise_cons.1 h
    rw [List.foldl_cons, ih hes, get?_insert]
    by_cases hk : k = e.1
    · subst hk
      rw [lookup_eq_none_of_lt hlt]
      simp [lookup]
    · simp [lookup, hk]

/-- A merged dictionary answers as the second one does, and as the first one
where the second has nothing. -/
theorem get?_merge (d e : Dict α) (k : String) :
    (d.merge e).get? k = (e.get? k).or (d.get? k) := by
  have h := get?_foldl_insert id e.increasing d k
  rwa [Option.map_id] at h

/-- Putting all entries of a dictionary into the one without entries gives
that dictionary. -/
@[simp] theorem empty_merge (d : Dict α) : empty.merge d = d := by
  refine ext_get? fun k => ?_
  rw [get?_merge, get?_empty, Option.or_none]

theorem merge_assoc (d e f : Dict α) : (d.merge e).merge f = d.merge (e.merge f) := by
  refine ext_get? fun k => ?_
  rw [get?_merge, get?_merge, get?_merge, get?_merge, Option.or_assoc]

@[simp] theorem merge_self (d : Dict α) : d.merge d = d := by
  refine ext_get? fun k => ?_
  rw [get?_merge, Option.or_self]

/-- The names of a dictionary are those it answers. -/
theorem mem_keys {d : Dict α} {k : String} : k ∈ d.keys ↔ (d.get? k).isSome := by
  have h : ∀ es : List (String × α), k ∈ es.map (·.1) ↔ (lookup k es).isSome := by
    intro es
    induction es with
    | nil => simp [lookup]
    | cons a rest ih =>
      by_cases hk : k = a.1
      · simp [lookup, hk]
      · simp only [List.map_cons, List.mem_cons, hk, false_or, lookup, if_false]
        exact ih
  exact h d.entries

/-- A merged dictionary has the names of both. -/
theorem mem_keys_merge {d e : Dict α} {k : String} :
    k ∈ (d.merge e).keys ↔ k ∈ d.keys ∨ k ∈ e.keys := by
  rw [mem_keys, mem_keys, mem_keys, get?_merge, Option.isSome_or, Bool.or_eq_true, or_comm]

/-- The names of a dictionary strictly increase. -/
theorem keys_pairwise (d : Dict α) : d.keys.Pairwise (· < ·) :=
  List.pairwise_map.2 d.increasing

end Dict

end CursorTree
