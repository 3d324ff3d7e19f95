/-
CursorTree.Cost — the cost triple a cursor reports, and the choice of a
driver among several.

Costs are 64-bit words.  The cost of a scan is a product that stops at the
largest word (`scan`).  A join enumerates the child with the least scan
cost; of several least ones it takes the first (`firstLeast`).

What a join over some children costs has two answers.  A join that is asked
itself needs a child to answer, and adds up words, which start over behind
the largest one (`join?`).  Plans are run by an estimate that cannot fail:
sums stop at the largest word, and a join without children counts as
unfavorable (`join`).
-/

namespace CursorTree

/-- The largest 64-bit word. -/
def maxWord : Nat := UInt64.size - 1

/-- The 64-bit word nearest to a natural number. -/
def clamp (n : Nat) : UInt64 := UInt64.ofNat (min n maxWord)

/-- A clamped number is the number itself or the largest word. -/
@[simp] theorem toNat_clamp (n : Nat) : (clamp n).toNat = min n maxWord := by
  have h : min n maxWord < UInt64.size := by unfold maxWord UInt64.size; omega
  exact UInt64.toNat_ofNat_of_lt' h

/-- Only zero is clamped to zero. -/
theorem eq_zero_of_clamp_eq_zero {n : Nat} (h : clamp n = 0) : n = 0 := by
  have hmin := congrArg UInt64.toNat h
  rw [toNat_clamp, UInt64.toNat_zero] at hmin
  unfold maxWord UInt64.size at hmin
  omega

/-- The sum of some words, which may be beyond a word. -/
def total : List UInt64 → Nat
  | [] => 0
  | k :: ks => k.toNat + total ks

/-- Words whose sum is zero are zero. -/
theorem eq_zero_of_total_eq_zero {ks : List UInt64} (h : total ks = 0) :
    ∀ k ∈ ks, k = 0 := by
  induction ks with
  | nil => exact fun k hk => absurd hk List.not_mem_nil
  | cons a ks ih =>
    rw [total] at h
    intro k hk
    rcases List.mem_cons.1 hk with rfl | hk
    · exact UInt64.toNat_inj.1 (by rw [UInt64.toNat_zero]; omega)
    · exact ih (by omega) k hk

/-- The sum of some words in words, which starts over behind the largest. -/
def wordTotal : List UInt64 → UInt64
  | [] => 0
  | k :: ks => k + wordTotal ks

/-- A sum that fits a word is the same in words. -/
theorem toNat_wordTotal {ks : List UInt64} (h : total ks ≤ maxWord) :
    (wordTotal ks).toNat = total ks := by
  unfold maxWord UInt64.size at h
  induction ks with
  | nil => rfl
  | cons k ks ih =>
    rw [total] at h ⊢
    rw [wordTotal, UInt64.toNat_add, ih (by omega)]
    omega

/-- What a cursor estimates: how many values it enumerates, the cost of one
step of enumeration and the cost of one membership test. -/
structure Cost where
  size : UInt64
  nextCost : UInt64
  checkCost : UInt64
  deriving DecidableEq, Inhabited

namespace Cost

/-- The cost of a cursor that matches nothing: free to include. -/
def zero : Cost := ⟨0, 0, 0⟩

/-- The cost of a cursor that knows nothing about itself, large enough that
no join wants to be driven by it. -/
def unfavorable : Cost := ⟨100000, 100000, 100000⟩

/-- True when all three components are zero. -/
def isZero (c : Cost) : Bool := c == zero

/-- The cost of enumerating everything: size times step, saturating. -/
def scan (c : Cost) : UInt64 := clamp (c.size.toNat * c.nextCost.toNat)

/-- A cost triple as a JSON object. -/
def json (c : Cost) : String :=
  "\x7b\"size\":" ++ toString c.size ++ ",\"next_cost\":" ++ toString c.nextCost ++
    ",\"check_cost\":" ++ toString c.checkCost ++ "\x7d"

/-- The position of the first least key in a list; 0 in the empty list. -/
def firstLeast : List UInt64 → Nat
  | [] => 0
  | k :: ks =>
    let i := firstLeast ks
    match ks[i]? with
    | some least => if least < k then i + 1 else 0
    | none => 0

/-- The position of the child that drives a join: the first one whose scan
cost is least. -/
def driver (children : List Cost) : Nat :=
  firstLeast (children.map scan)

/-- What a join over children of the given costs answers when it is asked for
its own.  Every value that its driver proposes is tested against the
children.  Without children there is no driver, and no answer. -/
def join? (children : List Cost) : Option Cost := do
  let d ← children[driver children]?
  let check := wordTotal (children.map checkCost)
  return ⟨d.size, d.nextCost + check, check⟩

/-- The cost by which a join over children of the given costs is planned.
Its sums stop at the largest word, and a join of nothing, of which nothing
is known, is put down as unfavorable. -/
def join (children : List Cost) : Cost :=
  match children[driver children]? with
  | none => unfavorable
  | some d =>
    let check := clamp (total (children.map checkCost))
    ⟨d.size, clamp (d.nextCost.toNat + check.toNat), check⟩

end Cost

end CursorTree
