/-
CursorTree.Proofs.RegistryLaws — what registries hold, and how they compose.

A registry comes about by requests to the desk: it is told tags, takes over
the tags of another one, or is copied.  An account of all this is kept
beside it that never drops anything: the names in the order of time with
their repetitions, and the values given to names, the latest first.  The
registry holds of the account each name once, where it was told first, and
the latest value of each (`holds_serveAll`).

## Laws

Dynamic tags are a list without repetitions, and merging appends to it what it
lacks.  Fixed tags are a dictionary, and merging overrides it.  A registry is
the two side by side, so each law is proved for either part: the one for
lists by comparing what is filtered out, the one for dictionaries by look-up.
A name may be of both kinds; then its fixed value is the one that counts when
the registry is written.
-/
import CursorTree.Session.Desk

namespace CursorTree

/-! ## 1. Merging -/

namespace Tags

/-- Registries with the same tags of either kind are equal. -/
theorem ext {t u : Tags} (hdynamic : t.dynamic = u.dynamic) (hfixed : t.fixed = u.fixed) :
    t = u := by
  obtain ⟨dynamic, fixed, nodup⟩ := t
  cases hdynamic
  cases hfixed
  rfl

theorem dynamic_merge (a b : Tags) :
    (a.merge b).dynamic = a.dynamic ++ b.dynamic.filter (· ∉ a.dynamic) :=
  dynamic_foldl_add b.nodup

theorem fixed_merge (a b : Tags) : (a.merge b).fixed = a.fixed.merge b.fixed :=
  congrArg (Dict.merge · b.fixed) (fixed_foldl_add b.dynamic a)

theorem merge_assoc (a b c : Tags) : (a.merge b).merge c = a.merge (b.merge c) := by
  refine ext ?_ ?_
  · simp only [dynamic_merge, List.filter_append, List.filter_filter, List.append_assoc]
    -- what `c` adds is neither in `a` nor among what `b` adds, hence not in `b`
    have hlacking : c.dynamic.filter (· ∉ a.dynamic ++ b.dynamic.filter (· ∉ a.dynamic)) =
        c.dynamic.filter (fun n => decide (n ∉ a.dynamic) && decide (n ∉ b.dynamic)) := by
      refine List.filter_congr fun n _ => ?_
      by_cases hn : n ∈ a.dynamic <;> simp [hn]
    rw [hlacking]
  · simp only [fixed_merge, Dict.merge_assoc]

@[simp] theorem merge_self (t : Tags) : t.merge t = t := by
  refine ext ?_ ?_
  · have hnone : t.dynamic.filter (· ∉ t.dynamic) = [] :=
      List.filter_eq_nil_iff.2 fun n hn => by simpa using hn
    rw [dynamic_merge, hnone, List.append_nil]
  · rw [fixed_merge, Dict.merge_self]

/-- How registries are merged: names behind names, values over values. -/
structure MergeLaws (a b c : Tags) : Prop where
  dynamic : (a.merge b).dynamic = a.dynamic ++ b.dynamic.filter (· ∉ a.dynamic)
  fixed : ∀ n, (a.merge b).fixed.get? n = (b.fixed.get? n).or (a.fixed.get? n)
  assoc : (a.merge b).merge c = a.merge (b.merge c)
  again : (a.merge b).merge b = a.merge b
  into_empty : empty.merge a = a

theorem mergeLaws (a b c : Tags) : MergeLaws a b c where
  dynamic := dynamic_merge a b
  fixed n := by rw [fixed_merge, Dict.get?_merge]
  assoc := merge_assoc a b c
  again := by rw [merge_assoc, merge_self]
  into_empty := empty_merge a

/-! ## 2. Writing -/

theorem write_write (t : Tags) (current : Option Value) (row : Row) :
    t.write current (t.write current row) = t.write current row := by
  refine Dict.ext_get? fun n => ?_
  simp only [get?_write]
  split
  next => rfl
  next => rw [← Option.or_assoc, Option.or_self]

/-- How a registry is written into a row. -/
structure WriteLaws (t : Tags) (current : Option Value) (row : Row) : Prop where
  fixed : ∀ n v, t.fixed.get? n = some v → (t.write current row).get? n = some (some v)
  dynamic : ∀ n ∈ t.dynamic, t.fixed.get? n = none → (t.write current row).get? n = some current
  others : ∀ n, n ∉ t.dynamic → t.fixed.get? n = none →
    (t.write current row).get? n = row.get? n
  again : t.write current (t.write current row) = t.write current row

theorem writeLaws (t : Tags) (current : Option Value) (row : Row) : WriteLaws t current row where
  fixed n v hv := by rw [get?_write, hv]; rfl
  dynamic n hn hnone := by rw [get?_write, hnone, if_pos hn]; rfl
  others n hn hnone := by rw [get?_write, hnone, if_neg hn]; rfl
  again := write_write t current row

end Tags

/-! ## 3. Accounts -/

/-- Everything that one registry has been told. -/
structure Account where
  /-- Dynamic tags in the order of time, repetitions included. -/
  names : List String := []
  /-- Fixed tags and their values, the latest first. -/
  values : List (String × Value) := []

/-- Accounts of the registries of a desk. -/
abbrev Ledger := String → Account

namespace Ledger

/-- The ledger with another account at a name. -/
def put (l : Ledger) (name : String) (a : Account) : Ledger := fun n => if n = name then a else l n

/-- The ledger after a request to the registry of a name. -/
def enter (l : Ledger) (name : String) : Desk.Command → Ledger
  | .renew => l.put name {}
  | .add tag => l.put name { l name with names := (l name).names ++ [tag] }
  | .addFixed tag v => l.put name { l name with values := (tag, v) :: (l name).values }
  | .merge other =>
    l.put name ⟨(l name).names ++ (l other).names, (l other).values ++ (l name).values⟩
  | .copyTo other => l.put other (l name)
  | .state | .same _ | .bind _ _ | .write _ _ => l

/-- The ledger after some requests. -/
def enterAll (l : Ledger) (requests : List (String × Desk.Command)) : Ledger :=
  requests.foldl (fun l r => l.enter r.1 r.2) l

end Ledger

namespace Desk

/-- The desk after some requests, each to the registry of a name. -/
def serveAll (d : Desk) (requests : List (String × Command)) : Desk :=
  requests.foldl (fun d r => (d.serve r.1 r.2).2) d

@[simp] theorem registry_setRegistry (d : Desk) (name n : String) (t : Tags) :
    (d.setRegistry name t).registry n = if n = name then t else d.registry n := by
  rw [registry, setRegistry, Dict.get?_insert]
  split <;> rfl

@[simp] theorem registry_setRow (d : Desk) (name n : String) (r : Row) :
    (d.setRow name r).registry n = d.registry n := rfl

end Desk

theorem eraseDups_filter (p : String → Bool) : ∀ names : List String,
    (names.filter p).eraseDups = names.eraseDups.filter p
  | [] => rfl
  | a :: rest => by
      have ih := eraseDups_filter p (rest.filter fun b => !b == a)
      rw [List.eraseDups_cons]
      cases ha : p a with
      | true =>
        rw [List.filter_cons_of_pos ha, List.filter_cons_of_pos ha, List.eraseDups_cons, ← ih,
          List.filter_filter, List.filter_filter]
        simp only [Bool.and_comm]
      | false =>
        have hkept : (rest.filter fun b => !b == a).filter p = rest.filter p := by
          rw [List.filter_filter]
          refine List.filter_congr fun b _ => ?_
          by_cases hb : b = a <;> simp [hb, ha]
        rw [List.filter_cons_of_neg (by simp [ha]), List.filter_cons_of_neg (by simp [ha]), ← ih,
          hkept]
termination_by names => names.length
decreasing_by exact Nat.lt_succ_of_le (List.length_filter_le _ rest)

/-- Names behind others count if they are not among those. -/
theorem eraseDups_append_filter (front back : List String) :
    (front ++ back).eraseDups =
      front.eraseDups ++ back.eraseDups.filter (· ∉ front.eraseDups) := by
  rw [List.eraseDups_append, List.removeAll, eraseDups_filter]
  congr 1
  refine List.filter_congr fun n _ => ?_
  simp

/-- A registry holds what it was told: each name where it came first, and of
each fixed tag the latest value. -/
structure Tags.Holds (t : Tags) (a : Account) : Prop where
  dynamic : t.dynamic = a.names.eraseDups
  fixed : ∀ n, t.fixed.get? n = Dict.lookup n a.values

namespace Tags.Holds

theorem empty : Tags.empty.Holds {} := ⟨rfl, fun _ => rfl⟩

theorem add {t : Tags} {a : Account} (h : t.Holds a) (tag : String) :
    (t.add tag).Holds { a with names := a.names ++ [tag] } where
  dynamic := by
    have hadd : (t.add tag).dynamic = t.dynamic ++ [tag].filter (· ∉ t.dynamic) :=
      dynamic_foldl_add (List.pairwise_singleton _ tag)
    rw [hadd, eraseDups_append_filter, h.dynamic]
    rfl
  fixed := h.fixed

theorem addFixed {t : Tags} {a : Account} (h : t.Holds a) (tag : String) (v : Value) :
    (t.addFixed tag v).Holds { a with values := (tag, v) :: a.values } where
  dynamic := h.dynamic
  fixed n := by rw [Tags.addFixed, Dict.get?_insert, h.fixed, Dict.lookup]

theorem merge {t u : Tags} {a b : Account} (ht : t.Holds a) (hu : u.Holds b) :
    (t.merge u).Holds ⟨a.names ++ b.names, b.values ++ a.values⟩ where
  dynamic := by rw [dynamic_merge, eraseDups_append_filter, ht.dynamic, hu.dynamic]
  fixed n := by rw [fixed_merge, Dict.get?_merge, ht.fixed, hu.fixed, Dict.lookup_append]

end Tags.Holds

/-- A request leaves every registry with what it was told. -/
theorem holds_serve {d : Desk} {l : Ledger} (h : ∀ x, (d.registry x).Holds (l x)) (name : String)
    (r : Desk.Command) (x : String) : ((d.serve name r).2.registry x).Holds (l.enter name r x) := by
  have hput : ∀ (y : String) (t : Tags) (a : Account), t.Holds a →
      ((d.setRegistry y t).registry x).Holds (l.put y a x) := by
    intro y t a ht
    rw [Desk.registry_setRegistry, Ledger.put]
    split
    next => exact ht
    next => exact h x
  cases r with
  | renew => exact hput name _ _ .empty
  | add tag => exact hput name _ _ ((h name).add tag)
  | addFixed tag v => exact hput name _ _ ((h name).addFixed tag v)
  | merge other => exact hput name _ _ ((h name).merge (h other))
  | copyTo other => exact hput other _ _ (h name)
  | state | same other | bind row r | write row current => exact h x

theorem holds_serveAll {d : Desk} {l : Ledger} (h : ∀ x, (d.registry x).Holds (l x))
    (requests : List (String × Desk.Command)) (x : String) :
    ((d.serveAll requests).registry x).Holds (l.enterAll requests x) := by
  induction requests generalizing d l with
  | nil => exact h x
  | cons r requests ih => exact ih (holds_serve h r.1 r.2)

/-! ## 4. The laws of registries -/

/-- Nothing has been told yet, and all registries are empty. -/
theorem holds_start (x : String) : (({} : Desk).registry x).Holds {} := .empty

/-- Whatever a desk was asked, each registry holds what it was told and no
dynamic tag twice; and all registries are merged and written by the laws. -/
theorem registries_compose :
    (∀ (requests : List (String × Desk.Command)) (x : String),
        (((({} : Desk).serveAll requests).registry x).Holds
            (Ledger.enterAll (fun _ => {}) requests x)) ∧
          ((({} : Desk).serveAll requests).registry x).dynamic.Nodup) ∧
      (∀ a b c : Tags, Tags.MergeLaws a b c) ∧
      ∀ (t : Tags) (current : Option Value) (row : Row), Tags.WriteLaws t current row :=
  ⟨fun requests x => ⟨holds_serveAll holds_start requests x, Tags.nodup _⟩,
    Tags.mergeLaws, Tags.writeLaws⟩

end CursorTree
