/-
CursorTree.Proofs.ArgumentPieces — a list of arguments, cut into pieces.

A piece is an argument, or an option together with the parameter that it
takes, whatever that looks like.  A list of arguments is cut into pieces in
one way only, where an option at the very end may be left dangling (`cut`).
What an argument means by itself is told by how it is spelled
(`Word.of_eq_iff_mem_spellings`, `Word.of_eq_value_iff`,
`Word.of_eq_unknown_iff`).

What is asked for is told from the pieces.  The first one that decides, if
there is one, is all that counts.  Otherwise each kind of piece counts for
itself, so the pieces of one kind may be moved past those of another.

## One step

Reading the arguments of a piece ends in its verdict or goes on with what
the piece adds to the options (`scan_words_append`).  All else follows by
induction on the pieces (`scan_words`).
-/
import CursorTree.CommandLine.Report
import Mathlib.Data.List.Induction

namespace CursorTree.CommandLine

/-! ## 1. Words -/

namespace Word

/-- The spellings of the options that are known. -/
def spellings : Word → List String
  | config => ["-c", "--config"]
  | tag => ["-t", "--tag"]
  | noOptimize => ["--no-optimize"]
  | help => ["-h", "--help"]
  | version => ["--version"]
  | unknown | value => []

theorem of_eq_of_mem_spellings {a : String} {w : Word} (h : a ∈ w.spellings) : of a = w := by
  revert a
  cases w <;> decide

/-- Only known options have spellings. -/
theorem known_of_mem_spellings {a : String} {w : Word} (h : a ∈ w.spellings) :
    w ≠ unknown ∧ w ≠ value := by
  constructor <;> rintro rfl <;> exact absurd h List.not_mem_nil

theorem head?_of_mem_spellings {a : String} {w : Word} (h : a ∈ w.spellings) :
    a.toList.head? = some '-' := by
  revert a
  cases w <;> decide

/-- An argument that is no spelling is told by its first character. -/
theorem of_eq_of_forall_not_mem {a : String} (h : ∀ w : Word, a ∉ w.spellings) :
    of a = if a.toList.head? = some '-' then unknown else value := by
  have hconfig := h config
  have htag := h tag
  have hnoOptimize := h noOptimize
  have hhelp := h help
  have hversion := h version
  simp only [spellings, List.mem_cons, List.not_mem_nil, or_false]
    at hconfig htag hnoOptimize hhelp hversion
  rw [of, if_neg hconfig, if_neg htag, if_neg hnoOptimize, if_neg hhelp, if_neg hversion]

/-- The arguments that mean a known option are its spellings. -/
theorem of_eq_iff_mem_spellings {a : String} {w : Word} (hunknown : w ≠ unknown)
    (hvalue : w ≠ value) : of a = w ↔ a ∈ w.spellings := by
  refine ⟨fun hof => ?_, of_eq_of_mem_spellings⟩
  by_contra hnot
  have hnone : ∀ w' : Word, a ∉ w'.spellings := by
    intro w' hmem
    rw [of_eq_of_mem_spellings hmem] at hof
    exact hnot (hof ▸ hmem)
  rw [of_eq_of_forall_not_mem hnone] at hof
  split at hof
  · exact hunknown hof.symm
  · exact hvalue hof.symm

/-- An argument is a value exactly when it does not start with a dash. -/
theorem of_eq_value_iff {a : String} : of a = value ↔ a.toList.head? ≠ some '-' := by
  by_cases hknown : ∃ w : Word, a ∈ w.spellings
  · obtain ⟨w, hw⟩ := hknown
    rw [of_eq_of_mem_spellings hw]
    exact ⟨fun h => absurd h (known_of_mem_spellings hw).2,
      fun h => absurd (head?_of_mem_spellings hw) h⟩
  · rw [of_eq_of_forall_not_mem (not_exists.1 hknown)]
    split
    next hdash => exact ⟨fun h => absurd h (by decide), fun h => absurd hdash h⟩
    next hdash => exact ⟨fun _ => hdash, fun _ => rfl⟩

/-- Any other argument with a dash in front is an option that is not known. -/
theorem of_eq_unknown_iff {a : String} :
    of a = unknown ↔ a.toList.head? = some '-' ∧ ∀ w : Word, a ∉ w.spellings := by
  by_cases hknown : ∃ w : Word, a ∈ w.spellings
  · obtain ⟨w, hw⟩ := hknown
    rw [of_eq_of_mem_spellings hw]
    exact ⟨fun h => absurd h (known_of_mem_spellings hw).1, fun h => absurd hw (h.2 w)⟩
  · have hnone := not_exists.1 hknown
    rw [of_eq_of_forall_not_mem hnone]
    split
    next hdash => exact ⟨fun _ => ⟨hdash, hnone⟩, fun _ => rfl⟩
    next hdash => exact ⟨fun h => absurd h (by decide), fun h => absurd h.1 hdash⟩

end Word

/-! ## 2. Pieces -/

/-- Arguments that are read together. -/
inductive Piece where
  | config (flag path : String) (h : Word.of flag = .config)
  | tag (flag name : String) (h : Word.of flag = .tag)
  | noOptimize (flag : String) (h : Word.of flag = .noOptimize)
  | help (flag : String) (h : Word.of flag = .help)
  | version (flag : String) (h : Word.of flag = .version)
  | unknown (option : String) (h : Word.of option = .unknown)
  | value (token : String) (h : Word.of token = .value)

namespace Piece

/-- The arguments of a piece. -/
def words : Piece → List String
  | config flag path _ => [flag, path]
  | tag flag name _ => [flag, name]
  | noOptimize flag _ | help flag _ | version flag _ => [flag]
  | unknown option _ => [option]
  | value token _ => [token]

/-- What a piece decides, if it does. -/
def verdict? : Piece → Option Request
  | help _ _ => some .help
  | version _ _ => some .version
  | unknown option _ => some (.unknown option)
  | _ => none

def path? : Piece → Option String
  | config _ path _ => some path
  | _ => none

def tag? : Piece → Option String
  | tag _ name _ => some name
  | _ => none

def token? : Piece → Option String
  | value token _ => some token
  | _ => none

def isNoOptimize : Piece → Bool
  | noOptimize _ _ => true
  | _ => false

end Piece

/-- A list of arguments in pieces.  The last argument dangles when it is an
option whose parameter is missing. -/
structure Cutting where
  pieces : List Piece
  dangling : Option { flag : String // Word.of flag = .config ∨ Word.of flag = .tag }

namespace Cutting

/-- The cutting with a piece in front. -/
def push (p : Piece) (c : Cutting) : Cutting := { c with pieces := p :: c.pieces }

/-- All arguments in their order. -/
def words (c : Cutting) : List String :=
  c.pieces.flatMap Piece.words ++ (c.dangling.map Subtype.val).toList

theorem words_push (p : Piece) (c : Cutting) : (c.push p).words = p.words ++ c.words := by
  rw [words, push, List.flatMap_cons, List.append_assoc]
  rfl

/-- A cutting is built by putting pieces in front of an end that dangles or
not. -/
@[elab_as_elim]
theorem induct {motive : Cutting → Prop} (whole : motive ⟨[], none⟩)
    (dangling : ∀ (flag : String) (h : Word.of flag = .config ∨ Word.of flag = .tag),
      motive ⟨[], some ⟨flag, h⟩⟩)
    (push : ∀ (p : Piece) (c : Cutting), motive c → motive (c.push p)) :
    ∀ c : Cutting, motive c
  | ⟨[], none⟩ => whole
  | ⟨[], some ⟨flag, h⟩⟩ => dangling flag h
  | ⟨p :: pieces, last⟩ => push p ⟨pieces, last⟩ (induct whole dangling push ⟨pieces, last⟩)

end Cutting

/-- Cuts a list of arguments from the left. -/
def cut : List String → Cutting
  | [] => ⟨[], none⟩
  | a :: rest =>
    match h : Word.of a with
    | .config =>
      match rest with
      | [] => ⟨[], some ⟨a, .inl h⟩⟩
      | path :: rest => (cut rest).push (.config a path h)
    | .tag =>
      match rest with
      | [] => ⟨[], some ⟨a, .inr h⟩⟩
      | name :: rest => (cut rest).push (.tag a name h)
    | .noOptimize => (cut rest).push (.noOptimize a h)
    | .help => (cut rest).push (.help a h)
    | .version => (cut rest).push (.version a h)
    | .unknown => (cut rest).push (.unknown a h)
    | .value => (cut rest).push (.value a h)

theorem words_cut (a : List String) : (cut a).words = a := by
  fun_induction cut a with
  | case1 | case2 | case4 => rfl
  | case3 a h path rest ih | case5 a h name rest ih => rw [Cutting.words_push, ih]; rfl
  | case6 a rest h ih | case7 a rest h ih | case8 a rest h ih | case9 a rest h ih
  | case10 a rest h ih => rw [Cutting.words_push, ih]; rfl

theorem cut_words_append (p : Piece) (rest : List String) :
    cut (p.words ++ rest) = (cut rest).push p := by
  cases p with
  | config a _ h | tag a _ h | noOptimize a h | help a h | version a h | unknown a h
  | value a h =>
    rw [Piece.words, List.cons_append, cut]
    -- the meaning of an argument is one of seven
    split
    all_goals first | rfl | exact absurd (h.symm.trans ‹Word.of a = _›) (by decide)

theorem cut_dangling {flag : String} (h : Word.of flag = .config ∨ Word.of flag = .tag) :
    cut [flag] = ⟨[], some ⟨flag, h⟩⟩ := by
  rw [cut]
  split
  · rfl
  · rfl
  all_goals
    next hof =>
      rw [hof] at h
      exact absurd h (by decide)

theorem cut_words (c : Cutting) : cut c.words = c := by
  induction c using Cutting.induct with
  | whole => rfl
  | dangling flag h => exact cut_dangling h
  | push p c ih => rw [Cutting.words_push, cut_words_append, ih]

/-- A list of arguments has one cutting. -/
theorem cut_eq_iff {a : List String} {c : Cutting} : cut a = c ↔ c.words = a := by
  constructor
  · rintro rfl
    exact words_cut a
  · rintro rfl
    exact cut_words c

/-! ## 3. Reading a piece -/

/-- The options with what a piece adds to them. -/
def Options.after (o : Options) : Piece → Options
  | .config _ path _ => { o with config := some path }
  | .tag _ name _ => { o with tags := o.tags ++ [name] }
  | .noOptimize _ _ => { o with noOptimize := true }
  | .value token _ => { o with values := o.values ++ [Value.ofToken token] }
  | .help _ _ | .version _ _ | .unknown _ _ => o

theorem scan_words_append (o : Options) (p : Piece) (rest : List String) :
    scan o (p.words ++ rest) = p.verdict?.getD (scan (o.after p) rest) := by
  cases p with
  | config a _ h | tag a _ h | noOptimize a h | help a h | version a h | unknown a h
  | value a h =>
    rw [Piece.words, List.cons_append, scan.eq_def]
    simp only [h]
    rfl

/-- A dangling option counts for nothing. -/
theorem scan_dangling (o : Options) {flag : String}
    (h : Word.of flag = .config ∨ Word.of flag = .tag) : scan o [flag] = .run o := by
  rcases h with h | h <;> simp only [scan, h]

/-- Pieces are read until one of them decides. -/
theorem scan_words (o : Options) (c : Cutting) :
    scan o c.words =
      (c.pieces.findSome? Piece.verdict?).getD (.run (c.pieces.foldl Options.after o)) := by
  induction c using Cutting.induct generalizing o with
  | whole => rfl
  | dangling flag h => exact scan_dangling o h
  | push p c ih =>
    rw [Cutting.words_push, scan_words_append, ih, Cutting.push, List.findSome?_cons]
    cases p.verdict? <;> rfl

/-! ## 4. Pieces of one kind -/

/-- What pieces add up to, each kind for itself. -/
def collected (pieces : List Piece) : Options where
  config := (pieces.filterMap Piece.path?).getLast?
  tags := pieces.filterMap Piece.tag?
  noOptimize := pieces.any Piece.isNoOptimize
  values := (pieces.filterMap Piece.token?).map Value.ofToken

theorem foldl_after (pieces : List Piece) :
    pieces.foldl Options.after {} = collected pieces := by
  induction pieces using List.reverseRecOn with
  | nil => rfl
  | append_singleton pieces p ih =>
    rw [List.foldl_append, ih, List.foldl_cons, List.foldl_nil]
    cases p <;> simp [collected, Options.after, Piece.path?, Piece.tag?, Piece.token?,
      Piece.isNoOptimize]

theorem collected_congr {pieces pieces' : List Piece} (h : pieces'.Perm pieces)
    (hpaths : pieces'.filterMap Piece.path? = pieces.filterMap Piece.path?)
    (htags : pieces'.filterMap Piece.tag? = pieces.filterMap Piece.tag?)
    (htokens : pieces'.filterMap Piece.token? = pieces.filterMap Piece.token?) :
    collected pieces' = collected pieces := by
  have hany : pieces'.any Piece.isNoOptimize = pieces.any Piece.isNoOptimize := h.any_eq
  rw [collected, collected, hpaths, htags, htokens, hany]

/-! ## 5. What is asked for -/

theorem request_words (c : Cutting) :
    request c.words = (c.pieces.findSome? Piece.verdict?).getD (.run (collected c.pieces)) := by
  rw [request, scan_words, foldl_after]

/-- No verdict is to go on. -/
theorem ne_run_of_verdict {pieces : List Piece} {r : Request}
    (h : pieces.findSome? Piece.verdict? = some r) (o : Options) : r ≠ .run o := by
  obtain ⟨p, -, hp⟩ := List.exists_of_findSome?_eq_some h
  cases p <;> cases hp <;> exact Request.noConfusion

theorem respond_congr {a b : List String} (h : request a = request b)
    (read : String → Except File.Fault String) : respond read a = respond read b := by
  unfold respond respondUnder
  rw [h]

/-- Where nothing is to be run, nothing is read. -/
theorem respond_of_ne_run {a : List String} (h : ∀ o, request a ≠ .run o)
    (read read' : String → Except File.Fault String) : respond read a = respond read' a := by
  unfold respond respondUnder
  cases hr : request a with
  | help | version | unknown _ => rfl
  | run o => exact absurd hr (h o)

/-- A list of arguments is cut into pieces in one way.  As long as none of
them decides, each kind of piece counts for itself, and pieces may be moved
past those of other kinds; the first one that decides is all that counts. -/
theorem respond_told_by_pieces (a : List String) :
    (∀ c : Cutting, cut a = c ↔ c.words = a) ∧
      ((cut a).pieces.findSome? Piece.verdict? = none →
        request a = .run (collected (cut a).pieces) ∧
          ∀ c : Cutting, c.pieces.Perm (cut a).pieces →
            c.pieces.filterMap Piece.path? = (cut a).pieces.filterMap Piece.path? →
            c.pieces.filterMap Piece.tag? = (cut a).pieces.filterMap Piece.tag? →
            c.pieces.filterMap Piece.token? = (cut a).pieces.filterMap Piece.token? →
              ∀ read, respond read c.words = respond read a) ∧
      ∀ r, (cut a).pieces.findSome? Piece.verdict? = some r →
        request a = r ∧
          ∀ c : Cutting, c.pieces.findSome? Piece.verdict? = some r →
            ∀ read read', respond read c.words = respond read' a := by
  have hrequest := request_words (cut a)
  rw [words_cut] at hrequest
  refine ⟨fun _ => cut_eq_iff, fun hnone => ?_, fun r hr => ?_⟩
  · rw [hnone] at hrequest
    refine ⟨hrequest, fun c hperm hpaths htags htokens => respond_congr ?_⟩
    have hnone' : c.pieces.findSome? Piece.verdict? = none :=
      List.findSome?_eq_none_iff.2 fun p hp =>
        List.findSome?_eq_none_iff.1 hnone p (hperm.mem_iff.1 hp)
    rw [request_words, hnone', hrequest, collected_congr hperm hpaths htags htokens]
  · rw [hr] at hrequest
    refine ⟨hrequest, fun c hc read read' => ?_⟩
    have hsame : request c.words = request a := by
      rw [request_words, hc, hrequest]
      rfl
    rw [respond_congr hsame read]
    exact respond_of_ne_run (fun o => hrequest ▸ ne_run_of_verdict hr o) read read'

/-- A tag that looks like an option, then other pieces, then an option that
is left without a parameter. -/
def mixedArguments : List String :=
  ["-t", "--help", "7", "--no-optimize", "-c", "limits", "bob", "--tag"]

def mixedPieces : Cutting where
  pieces := [.tag "-t" "--help" (by decide), .value "7" (by decide),
    .noOptimize "--no-optimize" (by decide), .config "-c" "limits" (by decide),
    .value "bob" (by decide)]
  dangling := some ⟨"--tag", .inr (by decide)⟩

/-- The tag may come last, and no file matters where the version is asked
for. -/
theorem mixedArguments_told :
    cut mixedArguments = mixedPieces ∧
      request mixedArguments =
        .run { config := some "limits", tags := ["--help"], noOptimize := true,
               values := [.id 7, .name "bob"] } ∧
      (∀ read, respond read ["7", "--no-optimize", "-c", "limits", "bob", "-t", "--help"] =
        respond read mixedArguments) ∧
      ∀ read read', respond read ["7", "--version"] =
        respond read' ["-c", "limits", "--version", "-x"] := by
  obtain ⟨hcut, hrun, -⟩ := respond_told_by_pieces mixedArguments
  obtain ⟨hcut', -, hverdict⟩ := respond_told_by_pieces ["-c", "limits", "--version", "-x"]
  have hpieces : cut mixedArguments = mixedPieces := (hcut mixedPieces).2 (by decide)
  have hpieces' : cut ["-c", "limits", "--version", "-x"] =
      ⟨[.config "-c" "limits" (by decide), .version "--version" (by decide),
        .unknown "-x" (by decide)], none⟩ := (hcut' _).2 (by decide)
  rw [hpieces] at hrun
  rw [hpieces'] at hverdict
  obtain ⟨hrequest, hmoved⟩ := hrun rfl
  refine ⟨hpieces, hrequest.trans (by decide), ?_, ?_⟩
  · exact hmoved ⟨mixedPieces.pieces.tail ++ [.tag "-t" "--help" (by decide)], none⟩
      (List.perm_append_singleton _ _) rfl rfl rfl
  · exact (hverdict .version rfl).2
      ⟨[.value "7" (by decide), .version "--version" (by decide)], none⟩ rfl

end CursorTree.CommandLine
