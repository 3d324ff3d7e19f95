/-
CursorTree.Settings — how a tree is optimized and evaluated.

Settings are built from the defaults one field at a time, without checks;
`defect?` says afterwards whether an engine can run with them.  Two things
are refused: an optimizer that may make no pass, and a limit that allows
no row.  The first is reported when both are the case.
-/

namespace CursorTree

/-- Options of optimization and evaluation. -/
structure Settings where
  /-- Optimize a tree before it is evaluated. -/
  optimize : Bool := true
  /-- How many passes the optimizer may make. -/
  maxPasses : Nat := 10
  /-- Which log lines are wanted. -/
  logFilter : String := "info"
  /-- How many rows an evaluation may write; all of them when absent. -/
  resultLimit : Option Nat := none
  deriving DecidableEq, Inhabited

namespace Settings

/-- What keeps an engine from running with some settings. -/
inductive Defect where
  | noPass
  | noRow
  deriving DecidableEq

/-- The wording of a defect. -/
def Defect.message : Defect → String
  | noPass => "max_optimize_passes must be at least 1"
  | noRow => "result_limit must be at least 1 when set"

/-- The first defect of some settings. -/
def defect? (s : Settings) : Option Defect :=
  if s.maxPasses = 0 then some .noPass
  else if s.resultLimit = some 0 then some .noRow
  else none

/-- The settings themselves, unless they have a defect. -/
def validate (s : Settings) : Except Defect Settings :=
  match s.defect? with
  | some d => .error d
  | none => .ok s

/-- Validation says which defect is reported first. -/
theorem validate_eq (s : Settings) :
    s.validate =
      if s.maxPasses = 0 then .error .noPass
      else if s.resultLimit = some 0 then .error .noRow
      else .ok s := by
  unfold validate defect?
  by_cases hpasses : s.maxPasses = 0
  · simp only [if_pos hpasses]
  · by_cases hlimit : s.resultLimit = some 0
    · simp only [if_neg hpasses, if_pos hlimit]
    · simp only [if_neg hpasses, if_neg hlimit]

/-- Optimize or not. -/
def withOptimize (s : Settings) (b : Bool) : Settings := { s with optimize := b }

/-- Allow so many passes. -/
def withMaxPasses (s : Settings) (n : Nat) : Settings := { s with maxPasses := n }

/-- Ask for these log lines. -/
def withLogFilter (s : Settings) (f : String) : Settings := { s with logFilter := f }

/-- Allow so many rows. -/
def withResultLimit (s : Settings) (n : Nat) : Settings := { s with resultLimit := some n }

end Settings

end CursorTree
