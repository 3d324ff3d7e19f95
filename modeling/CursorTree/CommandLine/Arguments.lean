/-
CursorTree.CommandLine.Arguments — what a list of arguments asks for.

Arguments are read from left to right.  Asking for help or for the version,
and giving an option that is not known, decide at once; otherwise the
arguments add up to options.  An option that wants a parameter takes the
next argument, whatever it looks like, and counts for nothing at the end of
the list.
-/
import CursorTree.Value.Token

namespace CursorTree.CommandLine

/-- What the arguments add up to. -/
structure Options where
  /-- The path of the settings to load; the last one given. -/
  config : Option String := none
  /-- The tags of the root, as they were given. -/
  tags : List String := []
  /-- The tree is not to be optimized. -/
  noOptimize : Bool := false
  /-- The values of the root. -/
  values : List Value := []
  deriving DecidableEq

/-- What a list of arguments asks for. -/
inductive Request where
  | help
  | version
  | unknown (option : String)
  | run (options : Options)
  deriving DecidableEq

/-- The meaning of one argument. -/
inductive Word where
  | config
  | tag
  | noOptimize
  | help
  | version
  | unknown
  | value
  deriving DecidableEq

/-- Tells what an argument means where no parameter is wanted. -/
def Word.of (argument : String) : Word :=
  if argument = "-c" ∨ argument = "--config" then config
  else if argument = "-t" ∨ argument = "--tag" then tag
  else if argument = "--no-optimize" then noOptimize
  else if argument = "-h" ∨ argument = "--help" then help
  else if argument = "--version" then version
  else if argument.toList.head? = some '-' then unknown
  else value

/-- Reads the arguments that follow those that have added up so far. -/
def scan (o : Options) : List String → Request
  | [] => .run o
  | a :: rest =>
    match Word.of a with
    | .config =>
      match rest with
      | [] => .run o
      | path :: rest => scan { o with config := some path } rest
    | .tag =>
      match rest with
      | [] => .run o
      | name :: rest => scan { o with tags := o.tags ++ [name] } rest
    | .noOptimize => scan { o with noOptimize := true } rest
    | .help => .help
    | .version => .version
    | .unknown => .unknown a
    | .value => scan { o with values := o.values ++ [Value.ofToken a] } rest

/-- Reads a list of arguments. -/
def request (arguments : List String) : Request := scan {} arguments

end CursorTree.CommandLine
