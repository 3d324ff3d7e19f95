/-
CursorTree.Proofs.Skipping — values that are passed over.

`WellFormed` is the grammar of a value, with blanks wherever they may
stand.  The inside of a list and that of an object differ only in what
leads to a value: nothing, or a name and a colon (`Leads`).

The machine that passes over a value is followed along that grammar.  A
value takes it from before the value to behind it, and the inside of a list
or an object takes it to behind the closing bracket, in less than two steps
a character (`WellFormed.passed`).  So the steps that the length of a text
allows are always enough, and passing over a well-formed value leaves what
stands behind it (`skipValue_wellFormed`), however deep the value is nested.
-/
import CursorTree.Json.Nesting
import CursorTree.Proofs.Spelling

namespace CursorTree.Json

/-! ## 1. The grammar -/

/-- The bracket that opens a list or an object. -/
def Frame.bracket : Frame → Char
  | list => '['
  | object => '{'

/-- The bracket that closes a list or an object. -/
def Frame.closing : Frame → Char
  | list => ']'
  | object => '}'

/-- A value that is not nested. -/
inductive Scalar : List Char → Prop
  | word {w : List Char} {t : Token} (h : SpellsWord w t) : Scalar w
  | number {t : List Char} {n : NumberText} (h : SpellsNumber t n) : Scalar t
  | text {t : List Char} (h : IsText t) : Scalar ('"' :: (t ++ ['"']))

/-- What stands in front of a value inside a list or an object: in an
object, its name and a colon. -/
inductive Leads : Frame → List Char → Prop
  | list : Leads .list []
  | object {ws k ws' : List Char} (hws : Blanks ws) (hk : IsText k) (hws' : Blanks ws') :
      Leads .object (ws ++ '"' :: (k ++ '"' :: (ws' ++ [':'])))

/-- The parts of a JSON text. -/
inductive Part where
  | value
  /-- What stands between the brackets of a list or an object, if anything
  does. -/
  | inside (f : Frame)

/-- The JSON texts, part by part. -/
inductive WellFormed : Part → List Char → Prop
  | scalar {t : List Char} (h : Scalar t) : WellFormed .value t
  | empty (f : Frame) {ws : List Char} (hws : Blanks ws) :
      WellFormed .value (f.bracket :: (ws ++ [f.closing]))
  | nested {f : Frame} {t : List Char} (h : WellFormed (.inside f) t) :
      WellFormed .value (f.bracket :: (t ++ [f.closing]))
  | last {f : Frame} {l ws v ws' : List Char} (hl : Leads f l) (hws : Blanks ws)
      (hv : WellFormed .value v) (hws' : Blanks ws') :
      WellFormed (.inside f) (l ++ (ws ++ (v ++ ws')))
  | more {f : Frame} {l ws v ws' t : List Char} (hl : Leads f l) (hws : Blanks ws)
      (hv : WellFormed .value v) (hws' : Blanks ws') (ht : WellFormed (.inside f) t) :
      WellFormed (.inside f) (l ++ (ws ++ (v ++ (ws' ++ ',' :: t))))

/-! ## 2. Beginnings -/

theorem isBlank_bracket (f : Frame) : isBlank f.bracket = false := by cases f <;> rfl

theorem isBlank_closing (f : Frame) : isBlank f.closing = false := by cases f <;> rfl

theorem isDelimiter_closing (f : Frame) : isDelimiter f.closing = true := by cases f <;> rfl

theorem delimited_blanks {ws : List Char} (hws : Blanks ws) {c : Char}
    (hc : isDelimiter c = true) (rest : List Char) : Delimited (ws ++ c :: rest) := by
  intro d hd
  cases ws with
  | nil =>
    cases Option.mem_some_iff.1 hd
    exact hc
  | cons w ws =>
    cases Option.mem_some_iff.1 hd
    have hblank := hws d List.mem_cons_self
    simp only [isDelimiter, hblank, Bool.true_or]

/-- A scalar behind blanks is read up to a delimiter, and opens nothing. -/
theorem readToken_scalar {t : List Char} (h : Scalar t) {ws rest : List Char} (hws : Blanks ws)
    (hrest : Delimited rest) :
    ∃ token, readToken false (ws ++ (t ++ rest)) = .ok (token, rest) ∧
      ∀ f, token ≠ .opening f := by
  cases h with
  | word h =>
    refine ⟨_, readToken_word h false hws rest, fun f => ?_⟩
    cases h <;> exact Token.noConfusion
  | number h =>
    exact ⟨.number _, readToken_spellsNumber h hws hrest false, fun f => Token.noConfusion⟩
  | @text t h =>
    obtain ⟨cs, hcs⟩ := readText_isText h rest
    refine ⟨.text cs, ?_, fun f => Token.noConfusion⟩
    rw [List.cons_append, List.append_assoc, List.singleton_append, readToken,
      skipBlanks_append_cons hws (by decide)]
    simp only [hcs, Except.map]

theorem readToken_bracket (f : Frame) {ws : List Char} (hws : Blanks ws) (cs : List Char) :
    readToken false (ws ++ f.bracket :: cs) = .ok (.opening f, cs) := by
  rw [readToken, skipBlanks_append_cons hws (isBlank_bracket f)]
  cases f <;> rfl

/-- A value starts with a character that is neither blank nor the end of a
list. -/
theorem WellFormed.head {t : List Char} (h : WellFormed .value t) :
    ∃ c u, t = c :: u ∧ isBlank c = false ∧ c ≠ ']' := by
  cases h with
  | empty f _ => exact ⟨f.bracket, _, rfl, isBlank_bracket f, by cases f <;> decide⟩
  | @nested f _ _ => exact ⟨f.bracket, _, rfl, isBlank_bracket f, by cases f <;> decide⟩
  | scalar h =>
    cases h with
    | word h => cases h <;> exact ⟨_, _, rfl, by decide, by decide⟩
    | text _ => exact ⟨'"', _, rfl, by decide, by decide⟩
    | number h =>
      obtain ⟨c, u, rfl, hc⟩ := h.head
      refine ⟨c, u, rfl, isBlank_of_number hc, ?_⟩
      rintro rfl
      exact absurd hc (by decide)

/-! ## 3. Steps -/

namespace State

/-- The machine gets from one state to another in so many steps, and has
the others left. -/
def Reaches (steps : Nat) (s s' : State) : Prop :=
  ∀ n, run .skimmed (steps + n) s = run .skimmed n s'

/-- How the machine goes on behind a closing bracket, with so many levels
around it. -/
def resume (n : Nat) (around : List Frame) (rest : List Char) : Except Fault (List Char) :=
  match around with
  | [] => .ok rest
  | f :: fs => run .skimmed n ⟨f, fs, .finished, rest⟩

/-- The machine gets behind the closing bracket in so many steps. -/
def Leaves (steps : Nat) (s : State) (rest : List Char) : Prop :=
  ∀ n, run .skimmed (steps + n) s = resume n s.around rest

theorem reaches_of_step {s s' : State} (h : s.step .skimmed = .ok (.more s')) : Reaches 1 s s' := by
  intro n
  rw [Nat.add_comm, run, h]
  rfl

theorem leaves_of_step {s : State} {rest : List Char}
    (h : s.step .skimmed = .ok (s.leave rest)) : Leaves 1 s rest := by
  intro n
  rw [Nat.add_comm, run, h, leave]
  cases s.around <;> rfl

theorem Reaches.trans {k l : Nat} {s s' s'' : State} (h : Reaches k s s') (h' : Reaches l s' s'') :
    Reaches (k + l) s s'' := fun n => by
  rw [Nat.add_assoc, h, h']

theorem Reaches.leaves {k l : Nat} {s s' : State} {rest : List Char} (h : Reaches k s s')
    (haround : s'.around = s.around) (h' : Leaves l s' rest) : Leaves (k + l) s rest := fun n => by
  rw [Nat.add_assoc, h, h', haround]

theorem readElement_skimmed {fs : List Frame} {phase : Phase} {text u : List Char} {c : Char}
    (htext : skipBlanks text = c :: u) (hc : c ≠ ']') :
    readElement .skimmed ⟨.list, fs, phase, text⟩ = .ok (.more ⟨.list, fs, .value, c :: u⟩) := by
  unfold readElement
  rw [htext]
  split
  all_goals simp_all

theorem readMember_skimmed {fs : List Frame} {phase : Phase} {text k ws cs : List Char}
    (htext : skipBlanks text = '"' :: (k ++ '"' :: (ws ++ ':' :: cs))) (hk : IsText k)
    (hws : Blanks ws) :
    readMember .skimmed ⟨.object, fs, phase, text⟩ = .ok (.more ⟨.object, fs, .value, cs⟩) := by
  obtain ⟨name, hname⟩ := readText_isText hk (ws ++ ':' :: cs)
  have hcolon : skipBlanks (ws ++ ':' :: cs) = ':' :: cs :=
    skipBlanks_append_cons hws (by decide) cs
  have hpairs : (Manner.skimmed != .skimmed) = false := rfl
  unfold readMember
  rw [htext]
  simp only [readKey, hpairs, hname, bind, Except.bind, hcolon, if_true]

/-- Behind a nested list or object the machine goes on at the level around
it. -/
theorem Leaves.reaches {k : Nat} {g f : Frame} {fs : List Frame} {phase : Phase}
    {text rest : List Char} (h : Leaves k ⟨g, f :: fs, phase, text⟩ rest) :
    Reaches k ⟨g, f :: fs, phase, text⟩ ⟨f, fs, .finished, rest⟩ := h

/-- What leads to a value is passed over, up to blanks. -/
theorem reaches_value {f : Frame} {l ws v : List Char} (hl : Leads f l) (hws : Blanks ws)
    (hv : WellFormed .value v) (fs : List Frame) {phase : Phase}
    (hphase : phase = .opened ∨ phase = .continued) (rest : List Char) :
    ∃ ws', Blanks ws' ∧ Reaches 1 ⟨f, fs, phase, l ++ (ws ++ (v ++ rest))⟩
      ⟨f, fs, .value, ws' ++ (v ++ rest)⟩ := by
  cases hl with
  | list =>
    obtain ⟨c, u, rfl, hblank, hbracket⟩ := hv.head
    have hskip : skipBlanks ([] ++ (ws ++ (c :: u ++ rest))) = c :: (u ++ rest) :=
      skipBlanks_append_cons hws hblank (u ++ rest)
    refine ⟨[], by decide, reaches_of_step ?_⟩
    rcases hphase with rfl | rfl <;> exact readElement_skimmed hskip hbracket
  | @object ws₁ k ws₂ hws₁ hk hws₂ =>
    have hskip : skipBlanks (ws₁ ++ '"' :: (k ++ '"' :: (ws₂ ++ [':'])) ++ (ws ++ (v ++ rest))) =
        '"' :: (k ++ '"' :: (ws₂ ++ ':' :: (ws ++ (v ++ rest)))) := by
      rw [List.append_assoc, List.cons_append, skipBlanks_append_cons hws₁ (by decide),
        List.append_assoc, List.cons_append, List.append_assoc, List.singleton_append]
    refine ⟨ws, hws, reaches_of_step ?_⟩
    rcases hphase with rfl | rfl <;> exact readMember_skimmed hskip hk hws₂

/-- A scalar is passed over. -/
theorem reaches_scalar {t : List Char} (h : Scalar t) (f : Frame) (fs : List Frame)
    {ws rest : List Char} (hws : Blanks ws) (hrest : Delimited rest) :
    Reaches 1 ⟨f, fs, .value, ws ++ (t ++ rest)⟩ ⟨f, fs, .finished, rest⟩ := by
  obtain ⟨token, htoken, hscalar⟩ := readToken_scalar h hws hrest
  have hpairs : (Manner.skimmed != .skimmed) = false := rfl
  refine reaches_of_step ?_
  rw [step, readValue, hpairs]
  simp only [htoken, bind, Except.bind]
  cases token with
  | opening f => exact absurd rfl (hscalar f)
  | null | bool _ | number _ | text _ => rfl

/-- A list or an object is entered. -/
theorem reaches_inside (g f : Frame) (fs : List Frame) {ws : List Char} (hws : Blanks ws)
    (cs : List Char) :
    Reaches 1 ⟨f, fs, .value, ws ++ g.bracket :: cs⟩ ⟨g, f :: fs, .opened, cs⟩ := by
  have hpairs : (Manner.skimmed != .skimmed) = false := rfl
  refine reaches_of_step ?_
  rw [step, readValue, hpairs]
  simp only [readToken_bracket g hws, bind, Except.bind]
  rfl

/-- An empty list or object is left at once. -/
theorem leaves_empty (f : Frame) (fs : List Frame) {ws : List Char} (hws : Blanks ws)
    (rest : List Char) : Leaves 1 ⟨f, fs, .opened, ws ++ f.closing :: rest⟩ rest := by
  have hskip := skipBlanks_append_cons hws (isBlank_closing f) rest
  refine leaves_of_step ?_
  cases f with
  | list =>
    change readElement .skimmed _ = _
    unfold readElement
    rw [hskip]
    rfl
  | object =>
    change readMember .skimmed _ = _
    unfold readMember
    rw [hskip]
    rfl

/-- Behind its last value a list or an object is left. -/
theorem leaves_finished (f : Frame) (fs : List Frame) {ws : List Char} (hws : Blanks ws)
    (rest : List Char) : Leaves 1 ⟨f, fs, .finished, ws ++ f.closing :: rest⟩ rest := by
  have hskip := skipBlanks_append_cons hws (isBlank_closing f) rest
  refine leaves_of_step ?_
  change readBehind _ = _
  unfold readBehind
  rw [hskip]
  cases f <;> rfl

/-- A comma leads from one value to the next. -/
theorem reaches_continued (f : Frame) (fs : List Frame) {ws : List Char} (hws : Blanks ws)
    (rest : List Char) :
    Reaches 1 ⟨f, fs, .finished, ws ++ ',' :: rest⟩ ⟨f, fs, .continued, rest⟩ := by
  have hskip : skipBlanks (ws ++ ',' :: rest) = ',' :: rest :=
    skipBlanks_append_cons hws (by decide) rest
  refine reaches_of_step ?_
  change readBehind _ = _
  unfold readBehind
  rw [hskip]
  cases f <;> rfl

end State

/-! ## 4. Runs -/

open State

/-- The machine gets past a part of a text, in less than two steps a
character: from before a value to behind it, or from a bracket or a comma
to behind the closing bracket. -/
def Passed : Part → List Char → Prop
  | .value, t => ∀ f fs {ws rest : List Char}, Blanks ws → Delimited rest →
      ∃ steps, steps < 2 * t.length ∧
        Reaches steps ⟨f, fs, .value, ws ++ (t ++ rest)⟩ ⟨f, fs, .finished, rest⟩
  | .inside f, t => ∀ fs {phase : Phase} (rest : List Char), phase = .opened ∨ phase = .continued →
      ∃ steps, steps ≤ 2 * t.length + 1 ∧
        Leaves steps ⟨f, fs, phase, t ++ f.closing :: rest⟩ rest

theorem WellFormed.passed {p : Part} {t : List Char} (h : WellFormed p t) : Passed p t := by
  induction h with
  | scalar h =>
    intro f fs ws rest hws hrest
    refine ⟨1, ?_, reaches_scalar h f fs hws hrest⟩
    obtain ⟨c, u, rfl, -⟩ := (WellFormed.scalar h).head
    rw [List.length_cons]
    omega
  | @empty g ws' hws' =>
    intro f fs ws rest hws hrest
    have henter := reaches_inside g f fs hws (ws' ++ g.closing :: rest)
    have hleave := leaves_empty g (f :: fs) hws' rest
    refine ⟨1 + 1, ?_, ?_⟩
    · simp only [List.length_cons, List.length_append]
      omega
    · simp only [List.cons_append, List.append_assoc, List.nil_append]
      exact henter.trans hleave.reaches
  | @nested g t _ ih =>
    intro f fs ws rest hws hrest
    have henter := reaches_inside g f fs hws (t ++ g.closing :: rest)
    obtain ⟨steps, hsteps, hleave⟩ := ih (f :: fs) rest (.inl rfl)
    refine ⟨1 + steps, ?_, ?_⟩
    · simp only [List.length_cons, List.length_append]
      omega
    · simp only [List.cons_append, List.append_assoc, List.nil_append]
      exact henter.trans hleave.reaches
  | @last f l ws v ws' hl hws hv hws' ih =>
    intro fs phase rest hphase
    obtain ⟨ws₁, hws₁, hlead⟩ :=
      reaches_value hl hws hv fs hphase (ws' ++ f.closing :: rest)
    obtain ⟨steps, hsteps, hvalue⟩ :=
      ih f fs hws₁ (delimited_blanks hws' (isDelimiter_closing f) rest)
    have hend := leaves_finished f fs hws' rest
    refine ⟨1 + (steps + 1), ?_, ?_⟩
    · simp only [List.length_append]
      omega
    · simp only [List.append_assoc]
      exact hlead.leaves rfl (hvalue.leaves rfl hend)
  | @more f l ws v ws' t hl hws hv hws' _ ih iht =>
    intro fs phase rest hphase
    have hdelimiter : isDelimiter ',' = true := by decide
    obtain ⟨ws₁, hws₁, hlead⟩ :=
      reaches_value hl hws hv fs hphase (ws' ++ ',' :: (t ++ f.closing :: rest))
    obtain ⟨steps, hsteps, hvalue⟩ :=
      ih f fs hws₁ (delimited_blanks hws' hdelimiter (t ++ f.closing :: rest))
    obtain ⟨steps', hsteps', htail⟩ := iht fs rest (.inr rfl)
    have hcomma := reaches_continued f fs hws' (t ++ f.closing :: rest)
    refine ⟨1 + (steps + (1 + steps')), ?_, ?_⟩
    · simp only [List.length_append, List.length_cons]
      omega
    · simp only [List.append_assoc, List.cons_append]
      exact hlead.leaves rfl (hvalue.leaves rfl (hcomma.leaves rfl htail))

/-- The machine stops when it leaves the outermost level. -/
theorem readNested_of_leaves {steps : Nat} {f : Frame} {cs rest : List Char}
    (h : Leaves steps ⟨f, [], .opened, cs⟩ rest) (hsteps : steps ≤ 2 * cs.length + 2) :
    readNested .skimmed f cs = .ok rest := by
  obtain ⟨n, hn⟩ := Nat.exists_eq_add_of_le hsteps
  rw [readNested, hn, h]
  rfl

/-- A value behind blanks is passed over, up to a delimiter. -/
theorem skipValue_wellFormed {t : List Char} (h : WellFormed .value t) {ws rest : List Char}
    (hws : Blanks ws) (hrest : Delimited rest) : skipValue (ws ++ (t ++ rest)) = .ok rest := by
  cases h with
  | scalar h =>
    obtain ⟨token, htoken, hscalar⟩ := readToken_scalar h hws hrest
    rw [skipValue, htoken]
    cases token with
    | opening f => exact absurd rfl (hscalar f)
    | null | bool _ | number _ | text _ => rfl
  | @empty f ws' hws' =>
    have hnested := readNested_of_leaves (leaves_empty f [] hws' rest) (by omega)
    rw [skipValue]
    simp only [List.cons_append, List.append_assoc, List.nil_append, readToken_bracket f hws]
    exact hnested
  | @nested f t h =>
    obtain ⟨steps, hsteps, hleave⟩ := h.passed [] rest (.inl rfl)
    have hnested := readNested_of_leaves hleave
      (by simp only [List.length_append, List.length_cons]; omega)
    rw [skipValue]
    simp only [List.cons_append, List.append_assoc, List.nil_append, readToken_bracket f hws]
    exact hnested

end CursorTree.Json
