/-
CursorTree.Kinds — names of cursor kinds and the numbers they get.

Three kinds are known from the start and have the numbers 0, 1 and 2.
Further names get the next numbers in the order of their registration.
The registry is a list of names that only grows at its end, so a number
once given stays with its name.

Registering has two steps, a look-up and, where that fails, an addition.
Between the two steps of one caller others may take steps of their own;
the addition therefore looks for the name once more before it appends it.
-/

namespace CursorTree

/-- The number of a kind. -/
structure Kind where
  number : UInt32
  deriving DecidableEq, Inhabited

namespace Kind

/-- The kinds known from the start, in the order of their numbers. -/
def builtin : List String := ["invalid", "null", "fixed"]

/-- The kind that no cursor reports. -/
def invalid : Kind := ⟨0⟩

/-- The kind of cursors over no values. -/
def null : Kind := ⟨1⟩

/-- The kind of cursors over a list. -/
def fixed : Kind := ⟨2⟩

/-- The kind at a position among the registered names. -/
def registered (position : Nat) : Kind := ⟨UInt32.ofNat (builtin.length + position)⟩

instance : Ord Kind := ⟨fun a b => compare a.number b.number⟩

end Kind

/-- The names registered so far, in the order of their numbers. -/
structure Kinds where
  names : List String := []
  deriving DecidableEq, Inhabited

namespace Kinds

/-- A name that no kind has. -/
structure Unknown where
  name : String
  deriving DecidableEq

/-- The wording of a failed look-up. -/
def Unknown.message (u : Unknown) : String := "unknown iterator type: " ++ u.name

/-- The kind of a name that is known. -/
def lookup? (r : Kinds) (name : String) : Option Kind :=
  match Kind.builtin.idxOf? name with
  | some i => some ⟨UInt32.ofNat i⟩
  | none => (r.names.idxOf? name).map Kind.registered

/-- The kind of a name, or the reason why there is none. -/
def lookup (r : Kinds) (name : String) : Except Unknown Kind :=
  match r.lookup? name with
  | some k => .ok k
  | none => .error ⟨name⟩

/-- The second step of a registration: the kind of a name that a look-up
did not find, appended unless it has been registered in between. -/
def commit (r : Kinds) (name : String) : Kind × Kinds :=
  match r.names.idxOf? name with
  | some i => (Kind.registered i, r)
  | none => (Kind.registered r.names.length, ⟨r.names ++ [name]⟩)

/-- The kind of a name, registered if it is not known. -/
def register (r : Kinds) (name : String) : Kind × Kinds :=
  match r.lookup? name with
  | some k => (k, r)
  | none => r.commit name

/-- The name of a kind. -/
def name (r : Kinds) (k : Kind) : String :=
  match Kind.builtin[k.number.toNat]? with
  | some n => n
  | none => r.names.getD (k.number.toNat - Kind.builtin.length) "invalid"

/-- The second steps of some callers, one after the other. -/
def commitAll (r : Kinds) : List String → List Kind × Kinds
  | [] => ([], r)
  | n :: ns =>
    let (k, r) := r.commit n
    let (ks, r) := r.commitAll ns
    (k :: ks, r)

/-- One name registered by several callers at once: all of them look it up
before the first of them adds it. -/
def race (r : Kinds) (callers : Nat) (name : String) : List Kind × Kinds :=
  match r.lookup? name with
  | some k => (List.replicate callers k, r)
  | none => r.commitAll (List.replicate callers name)

end Kinds

end CursorTree
