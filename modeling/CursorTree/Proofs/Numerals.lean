/-
CursorTree.Proofs.Numerals — which words are ids.

The grammar of numerals is given by its own rules: a digit denotes itself,
and a digit behind others makes ten times what they denote and itself; one
plus sign may stand in front (`Denotes`, `Numeral`).  A word is read as an id
when it is a numeral of that grammar below 2^64, and as the name that it is
otherwise.

Reading is stable under printing.  An id is printed as a numeral of the
grammar that denotes it, and a name that is read from a word is printed as
that word.  So only a name that is spelled like a small numeral is read
back as something else.
-/
import CursorTree.Value.Token
import Mathlib.Algebra.Ring.Nat
import Mathlib.Data.List.Induction

namespace CursorTree.Value

/-! ## 1. The grammar -/

/-- The number that one or more ASCII digits denote. -/
inductive Denotes : List Char → Nat → Prop
  | digit {d : Char} (hd : d.isDigit = true) : Denotes [d] (d.toNat - '0'.toNat)
  | further {ds : List Char} {n : Nat} {d : Char} (h : Denotes ds n) (hd : d.isDigit = true) :
      Denotes (ds ++ [d]) (10 * n + (d.toNat - '0'.toNat))

/-- The number that a decimal numeral denotes. -/
inductive Numeral : List Char → Nat → Prop
  | plain {ds : List Char} {n : Nat} (h : Denotes ds n) : Numeral ds n
  | plus {ds : List Char} {n : Nat} (h : Denotes ds n) : Numeral ('+' :: ds) n

namespace Denotes

theorem ne_nil {ds : List Char} {n : Nat} (h : Denotes ds n) : ds ≠ [] := by
  cases h with
  | digit => exact List.cons_ne_nil _ _
  | further => exact List.append_ne_nil_of_right_ne_nil _ (List.cons_ne_nil _ _)

theorem isDigit {ds : List Char} {n : Nat} (h : Denotes ds n) : ∀ d ∈ ds, d.isDigit = true := by
  induction h with
  | digit hd => exact fun c hc => List.mem_singleton.1 hc ▸ hd
  | further _ hd ih =>
    intro c hc
    rcases List.mem_append.1 hc with hc | hc
    · exact ih c hc
    · exact List.mem_singleton.1 hc ▸ hd

theorem ofDigitChars_eq {ds : List Char} {n : Nat} (h : Denotes ds n) :
    Nat.ofDigitChars 10 ds 0 = n := by
  induction h with
  | digit hd => simp [Nat.ofDigitChars_cons]
  | further _ _ ih => rw [Nat.ofDigitChars_append, ih, Nat.ofDigitChars_cons, Nat.ofDigitChars_nil]

/-- Any digits denote a number. -/
theorem of_isDigit {ds : List Char} (hne : ds ≠ []) (h : ∀ d ∈ ds, d.isDigit = true) :
    Denotes ds (Nat.ofDigitChars 10 ds 0) := by
  induction ds using List.reverseRecOn with
  | nil => exact absurd rfl hne
  | append_singleton ds d ih =>
    have hd : d.isDigit = true := h d (List.mem_append_right _ (List.mem_singleton_self d))
    rcases eq_or_ne ds [] with rfl | hds
    · simpa [Nat.ofDigitChars_cons] using Denotes.digit hd
    · have hfront := ih hds fun c hc => h c (List.mem_append_left _ hc)
      rw [Nat.ofDigitChars_append, Nat.ofDigitChars_cons, Nat.ofDigitChars_nil]
      exact hfront.further hd

end Denotes

theorem numeral?_eq_some {ds : List Char} {n : Nat} : numeral? ds = some n ↔ Denotes ds n := by
  rw [numeral?]
  constructor
  · intro h
    split at h
    next hdigits =>
      rw [← Option.some.inj h]
      exact .of_isDigit hdigits.1 (List.all_eq_true.1 hdigits.2)
    next => exact absurd h (Option.some_ne_none n).symm
  · intro h
    rw [if_pos ⟨h.ne_nil, List.all_eq_true.2 h.isDigit⟩, h.ofDigitChars_eq]

/-- Digits have no sign to drop. -/
theorem dropPlus_digits {ds : List Char} (h : ∀ d ∈ ds, d.isDigit = true) : dropPlus ds = ds := by
  unfold dropPlus
  split
  next ds => exact absurd (h '+' List.mem_cons_self) (by decide)
  next => rfl

theorem numeral_iff {cs : List Char} {n : Nat} :
    Numeral cs n ↔ numeral? (dropPlus cs) = some n := by
  rw [numeral?_eq_some]
  constructor
  · rintro (h | h)
    · rwa [dropPlus_digits h.isDigit]
    · exact h
  · intro h
    unfold dropPlus at h
    split at h
    next ds => exact .plus h
    next => exact .plain h

/-- A word denotes one number at most. -/
theorem Numeral.unique {cs : List Char} {m n : Nat} (hm : Numeral cs m) (hn : Numeral cs n) :
    m = n :=
  Option.some.inj ((numeral_iff.1 hm).symm.trans (numeral_iff.1 hn))

/-- Zeros in front do not count. -/
theorem Denotes.zeros {ds : List Char} {n : Nat} (h : Denotes ds n) :
    ∀ k, Denotes (List.replicate k '0' ++ ds) n
  | 0 => h
  | k + 1 => by
      have hk := h.zeros k
      have hdigits : ∀ d ∈ '0' :: (List.replicate k '0' ++ ds), d.isDigit = true := fun d hd =>
        (List.mem_cons.1 hd).elim (fun hd => hd ▸ rfl) (hk.isDigit d)
      have hzero := Denotes.of_isDigit (List.cons_ne_nil _ _) hdigits
      rw [Nat.ofDigitChars_cons] at hzero
      rw [← hk.ofDigitChars_eq]
      exact hzero

theorem numeral_toDigits (n : Nat) : Numeral (Nat.toDigits 10 n) n := by
  have hdigits : ∀ d ∈ Nat.toDigits 10 n, d.isDigit = true := fun d hd =>
    Nat.isDigit_of_mem_toDigits (by decide) (by decide) hd
  have h := Denotes.of_isDigit Nat.toDigits_ne_nil hdigits
  rw [Nat.ofDigitChars_ten_toDigits] at h
  exact .plain h

/-! ## 2. Reading a word -/

theorem word?_eq_some {cs : List Char} {n : UInt64} : word? cs = some n ↔ Numeral cs n.toNat := by
  rw [numeral_iff, word?, Option.bind_eq_some_iff]
  constructor
  · rintro ⟨k, hk, hword⟩
    split at hword
    next hlt => rwa [← Option.some.inj hword, UInt64.toNat_ofNat_of_lt' hlt]
    next => exact absurd hword (Option.some_ne_none n).symm
  · intro h
    exact ⟨n.toNat, h, by rw [if_pos n.toNat_lt, UInt64.ofNat_toNat]⟩

/-- A word that stands for no 64-bit number is no numeral, or one that is too
great. -/
theorem word?_eq_none {cs : List Char} :
    word? cs = none ↔ (∀ n, ¬ Numeral cs n) ∨ ∃ n, Numeral cs n ∧ 2 ^ 64 ≤ n := by
  rw [Option.eq_none_iff_forall_ne_some]
  constructor
  · intro h
    by_cases hsome : ∃ n, Numeral cs n
    · obtain ⟨n, hn⟩ := hsome
      refine .inr ⟨n, hn, ?_⟩
      by_contra hlt
      refine h (UInt64.ofNat n) (word?_eq_some.2 ?_)
      rwa [UInt64.toNat_ofNat_of_lt' (Nat.not_le.1 hlt)]
    · exact .inl (not_exists.1 hsome)
  · rintro (hnone | ⟨n, hn, hgreat⟩) k hk
    · exact hnone k.toNat (word?_eq_some.1 hk)
    · rw [hn.unique (word?_eq_some.1 hk)] at hgreat
      exact absurd k.toNat_lt (Nat.not_lt.2 hgreat)

theorem ofToken_eq_id {t : String} {n : UInt64} : ofToken t = id n ↔ word? t.toList = some n := by
  unfold ofToken
  split
  next m hm => rw [hm, id.injEq, Option.some.injEq]
  next hnone => simp [hnone]

theorem ofToken_eq_name {t s : String} :
    ofToken t = name s ↔ s = t ∧ word? t.toList = none := by
  unfold ofToken
  split
  next m hm => simp [hm]
  next hnone => simp [hnone, eq_comm]

/-- However many zeros are put in front of it, a numeral is the same id. -/
theorem ofToken_zeros {ds : List Char} {n : UInt64} (h : Denotes ds n.toNat) (k : Nat) :
    ofToken (String.ofList (List.replicate k '0' ++ ds)) = id n := by
  rw [ofToken_eq_id, word?_eq_some, String.toList_ofList]
  exact .plain (h.zeros k)

/-! ## 3. Printing -/

theorem ofToken_display_id (n : UInt64) : ofToken (display (id n)) = id n := by
  rw [ofToken_eq_id, word?_eq_some, display, String.toList_ofList]
  exact numeral_toDigits n.toNat

theorem display_name (s : String) : display (name s) = s := String.ofList_toList

/-- A value that was read is read again from what it is printed as. -/
theorem ofToken_display_ofToken (t : String) : ofToken (display (ofToken t)) = ofToken t := by
  cases h : ofToken t with
  | id n => exact ofToken_display_id n
  | name s =>
    obtain ⟨rfl, -⟩ := ofToken_eq_name.1 h
    rw [display_name]
    exact h

/-- A word is an id when it is a decimal numeral of a 64-bit number, with a
plus sign or none in front, and the name that it is otherwise.  What is
printed is read back, except for a name that is such a numeral. -/
theorem ofToken_reads_numerals (t : String) :
    (∀ n : UInt64, ofToken t = id n ↔ Numeral t.toList n.toNat) ∧
      (∀ s : String, ofToken t = name s ↔
        s = t ∧ ((∀ n, ¬ Numeral t.toList n) ∨ ∃ n, Numeral t.toList n ∧ 2 ^ 64 ≤ n)) ∧
      (∀ n : UInt64, ofToken (display (id n)) = id n) ∧
      ofToken (display (ofToken t)) = ofToken t ∧
      (ofToken (display (name t)) = name t ↔
        (∀ n, ¬ Numeral t.toList n) ∨ ∃ n, Numeral t.toList n ∧ 2 ^ 64 ≤ n) := by
  refine ⟨fun n => ofToken_eq_id.trans word?_eq_some, fun s => ?_, ofToken_display_id,
    ofToken_display_ofToken t, ?_⟩
  · rw [ofToken_eq_name, word?_eq_none]
  · rw [display_name, ofToken_eq_name, word?_eq_none]
    exact and_iff_right rfl

/-- A sign alone and a doubled sign are names, and so is the first number that
is too great. -/
example : ["+", "++1", "18446744073709551616", "+007"].map ofToken =
    [name "+", name "++1", name "18446744073709551616", id 7] := by decide

end CursorTree.Value
