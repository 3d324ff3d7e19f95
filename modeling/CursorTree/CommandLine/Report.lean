/-
CursorTree.CommandLine.Report — what the program prints.

A run builds one list from the values of the command line, tags it, lets
the optimizer have it if that is wanted, prints the outline of the tree
and then its rows.  Rows are printed column by column, separated by tabs,
with an underscore where a row has no value.

A run also tells its log about the root.  Whether the log shows that is
decided by a filter (`LogFilter`), which sees the directives of the
environment and of the settings.
-/
import CursorTree.Collect
import CursorTree.CommandLine.Arguments
import CursorTree.Outline
import CursorTree.Settings.Load

namespace CursorTree.CommandLine

/-- How a program ends, and what it has written until then. -/
structure Outcome where
  code : UInt32
  stdout : String := ""
  stderr : String := ""
  /-- The line of the log about the root, unless the program ends before it or
  the log does not show it.  Lines of a finer level are no part of this. -/
  log : Option String := none
  deriving DecidableEq

/-- What a run may write to its log.  The directives for it are those of the
environment or else those of the settings; how directives are read is not
the program's business. -/
structure LogFilter where
  /-- The directives of the environment, if there are any and all of them can
  be read. -/
  environment : Option String
  /-- Whether some directives let the line about the root through. -/
  shows : String → Bool
  /-- What is said about directives of the settings that cannot be read. -/
  complaint : String → String

namespace LogFilter

/-- The filter of an environment that asks for lines of information. -/
def info : LogFilter where
  environment := some "info"
  shows := fun _ => true
  complaint := fun _ => ""

/-- Whether the line about the root of a run is shown. -/
def admits (f : LogFilter) (s : Settings) : Bool := f.shows (f.environment.getD s.logFilter)

/-- What the filter of a run says about its directives. -/
def warning (f : LogFilter) (s : Settings) : String :=
  match f.environment with
  | some _ => ""
  | none => f.complaint s.logFilter

end LogFilter

/-- The lines of the help. -/
def helpLines : List String :=
  [ "graphiter - iterator tree inspector",
    "",
    "Usage: graphiter [OPTIONS] [VALUE...]",
    "",
    "Options:",
    "  -c, --config PATH      Load engine config from a JSON file",
    "  -t, --tag NAME         Tag the root iterator's results",
    "  --no-optimize          Skip the optimizer",
    "  -h, --help             Show this help message",
    "  --version              Show version",
    "",
    "Examples:",
    "  graphiter -t who alice bob      Two bindings for ?who",
    "  graphiter -t who                Empty set, optimized to null" ]

/-- The line of the version. -/
def versionLine : String := "graphiter v0.1.0"

/-- Lines of text, each one ended. -/
def lines (ls : List String) : String :=
  ls.foldl (fun text l => text ++ l ++ "\n") ""

/-- What is printed for a tag in a row: its value, or an underscore. -/
def cell (row : Row) (tag : String) : String :=
  match row.get? tag with
  | some (some v) => v.display
  | _ => "_"

/-- The line of a row under some columns. -/
def rowLine (columns : List String) (row : Row) : String :=
  "\t".intercalate (columns.map (cell row))

/-- The lines of a table. -/
def tableLines (t : Table) : List String :=
  if t.isEmpty then ["(0 results)"]
  else "\t".intercalate t.columns :: t.rows.map (rowLine t.columns) ++ [s!"({t.size} results)"]

/-- Builds the root from tags and values. -/
def buildRoot (o : Options) : Issuing Listing := do
  return ⟨{ uid := ← Issuing.fresh, tags := o.tags.foldl Tags.add .empty }, o.values, 0⟩

/-- The line of the log about a root: who it is and how many values it has. -/
def logLine (root : Listing) : String :=
  s!"INFO graphiter: built root iterator uid={root.head.uid} size={root.values.length}"

/-- What is printed for a root under some settings: the outline of the tree
it is optimized to, and the table of that tree. -/
def evaluate (s : Settings) (root : Listing) : Issuing String := do
  let c := Cursor.listing root
  let c ← if s.optimize then c.optimize s.maxPasses else pure c
  let outline := c.outlineText
  let (table, c) ← c.collect s.resultLimit
  c.close
  return outline ++ lines (tableLines table)

/-- A run under some settings. -/
def run (f : LogFilter) (s : Settings) (o : Options) : Issuing Outcome := do
  let root ← buildRoot o
  return { code := 0
           stdout := ← evaluate s root
           stderr := f.warning s
           log := if f.admits s then some (logLine root) else none }

/-- The settings of a run: loaded where a path is given. -/
def settings (read : String → Except File.Fault String) (o : Options) :
    Except (String × Settings.LoadError) Settings := do
  let s ← match o.config with
    | none => pure {}
    | some path => (Settings.load (read path)).mapError fun e => (path, e)
  return if o.noOptimize then s.withOptimize false else s

/-- The outcome of a list of arguments, with a log filtered and files read as
given. -/
def respondUnder (f : LogFilter) (read : String → Except File.Fault String)
    (arguments : List String) : Outcome :=
  match request arguments with
  | .help => { code := 0, stdout := lines helpLines }
  | .version => { code := 0, stdout := lines [versionLine] }
  | .unknown option => { code := 1, stderr := lines [s!"Unknown option: {option}"] }
  | .run o =>
    match settings read o with
    | .error (path, e) =>
      { code := 1, stderr := lines [s!"Error loading config {path}: {e.message}"] }
    | .ok s => ((run f s o).outcome {}).1

/-- The outcome of a list of arguments in an environment that asks for lines of
information. -/
def respond (read : String → Except File.Fault String) (arguments : List String) : Outcome :=
  respondUnder .info read arguments

end CursorTree.CommandLine
