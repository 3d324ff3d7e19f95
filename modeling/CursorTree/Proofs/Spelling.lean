/-
CursorTree.Proofs.Spelling — strings and numbers of JSON as they are
spelled, and how they are read.

A string or a number can be spelled in several ways.  The spellings are
written down as relations between a text and what it denotes (`Spells`,
`SpellsNumber`), letter by letter and without saying how they are found.
Reading a spelling gives what it denotes and stops right behind it:

* a string is followed by its closing quote, whatever comes then
  (`readText_spells`);
* a number has no end of its own, so it takes something behind it that
  cannot belong to it (`Delimited`, `readNumberText_spells`).

A string that is only passed over may also hold halves of surrogate pairs
that stand alone.  `IsText` is the form that is left of `Spells` then.

What values are written as are spellings too: a string with its escapes
(`spells_escape`), where nothing is escaped but what must be (`EscapedAs`),
and a numeral without leading zeros (`readItem_numeral`).
-/
import CursorTree.Json.Token

namespace CursorTree.Json

/-! ## 1. Spellings of strings -/

/-- What stands between the quotes of a string, and the characters that it
denotes. -/
inductive Spells : List Char → List Char → Prop
  | nothing : Spells [] []
  /-- A character that need not be escaped. -/
  | plain {c : Char} {t cs : List Char} (hquote : c ≠ '"') (hslash : c ≠ '\\')
      (hprinted : 32 ≤ c.toNat) (rest : Spells t cs) : Spells (c :: t) (c :: cs)
  /-- A backslash and a letter. -/
  | letter {l c : Char} {t cs : List Char} (h : unescape? l = some c) (rest : Spells t cs) :
      Spells ('\\' :: l :: t) (c :: cs)
  /-- A character by its number. -/
  | unit {a b c d : Char} {n : Nat} {t cs : List Char} (h : hexUnit? a b c d = some n)
      (hhigh : isHighUnit n = false) (hlow : isLowUnit n = false) (rest : Spells t cs) :
      Spells ('\\' :: 'u' :: a :: b :: c :: d :: t) (Char.ofNat n :: cs)
  /-- A character by a surrogate pair. -/
  | pair {a b c d e f g h : Char} {n m : Nat} {t cs : List Char} (hn : hexUnit? a b c d = some n)
      (hhigh : isHighUnit n = true) (hm : hexUnit? e f g h = some m) (hlow : isLowUnit m = true)
      (rest : Spells t cs) :
      Spells ('\\' :: 'u' :: a :: b :: c :: d :: '\\' :: 'u' :: e :: f :: g :: h :: t)
        (pairChar n m :: cs)

/-- What may stand between the quotes of a string that is passed over. -/
inductive IsText : List Char → Prop
  | nothing : IsText []
  | plain {c : Char} {t : List Char} (hquote : c ≠ '"') (hslash : c ≠ '\\')
      (hprinted : 32 ≤ c.toNat) (rest : IsText t) : IsText (c :: t)
  | letter {l c : Char} {t : List Char} (h : unescape? l = some c) (rest : IsText t) :
      IsText ('\\' :: l :: t)
  | unit {a b c d : Char} {n : Nat} {t : List Char} (h : hexUnit? a b c d = some n)
      (rest : IsText t) : IsText ('\\' :: 'u' :: a :: b :: c :: d :: t)

section Reading

variable {pairs : Bool}

theorem readText_quote (rest : List Char) : readText pairs ('"' :: rest) = .ok ([], rest) := by
  rw [readText]
  · rfl
  all_goals simp

theorem readText_plain {c : Char} (hquote : c ≠ '"') (hslash : c ≠ '\\')
    (hprinted : 32 ≤ c.toNat) (t : List Char) :
    readText pairs (c :: t) = prepend c (readText pairs t) := by
  rw [readText]
  · rw [if_neg hquote, if_neg (Nat.not_lt.2 hprinted)]
  all_goals simp [hslash]

theorem readText_letter {l c : Char} (h : unescape? l = some c) (t : List Char) :
    readText pairs ('\\' :: l :: t) = prepend c (readText pairs t) := by
  have hl : l ≠ 'u' := by
    rintro rfl
    cases h
  rw [readText]
  · rw [h]
  all_goals simp [hl]

theorem readText_unit {a b c d : Char} {n : Nat} (h : hexUnit? a b c d = some n)
    (hhigh : (pairs && isHighUnit n) = false) (hlow : (pairs && isLowUnit n) = false)
    (t : List Char) :
    readText pairs ('\\' :: 'u' :: a :: b :: c :: d :: t) =
      prepend (Char.ofNat n) (readText pairs t) := by
  rw [readText, h]
  simp only [hlow, hhigh, Bool.false_eq_true, if_false]

/-- No unit is in both halves of the surrogate range. -/
theorem isLowUnit_of_isHighUnit {n : Nat} (h : isHighUnit n = true) : isLowUnit n = false := by
  simp only [isHighUnit, Bool.and_eq_true, decide_eq_true_eq] at h
  simp only [isLowUnit, Bool.and_eq_false_iff, decide_eq_false_iff_not]
  omega

theorem readText_pair {a b c d e f g h : Char} {n m : Nat} (hn : hexUnit? a b c d = some n)
    (hhigh : isHighUnit n = true) (hm : hexUnit? e f g h = some m) (hlow : isLowUnit m = true)
    (t : List Char) :
    readText true
        ('\\' :: 'u' :: a :: b :: c :: d :: '\\' :: 'u' :: e :: f :: g :: h :: t) =
      prepend (pairChar n m) (readText true t) := by
  rw [readText, hn]
  simp only [isLowUnit_of_isHighUnit hhigh, hhigh, hm, hlow, Bool.and_false, Bool.and_true,
    Bool.false_eq_true, if_false, if_true]

end Reading

theorem prepend_ok (c : Char) (cs rest : List Char) :
    prepend c (.ok (cs, rest)) = .ok (c :: cs, rest) := rfl

/-- A string is read as what it denotes, up to its closing quote. -/
theorem readText_spells {t cs : List Char} (h : Spells t cs) (rest : List Char) :
    readText true (t ++ '"' :: rest) = .ok (cs, rest) := by
  induction h with
  | nothing => exact readText_quote rest
  | plain hquote hslash hprinted _ ih =>
    rw [List.cons_append, readText_plain hquote hslash hprinted, ih, prepend_ok]
  | letter h _ ih =>
    simp only [List.cons_append]
    rw [readText_letter h, ih, prepend_ok]
  | unit h hhigh hlow _ ih =>
    simp only [List.cons_append]
    rw [readText_unit h (by rw [hhigh]; rfl) (by rw [hlow]; rfl), ih, prepend_ok]
  | pair hn hhigh hm hlow _ ih =>
    simp only [List.cons_append]
    rw [readText_pair hn hhigh hm hlow, ih, prepend_ok]

/-- A string that is passed over is read to its closing quote. -/
theorem readText_isText {t : List Char} (h : IsText t) (rest : List Char) :
    ∃ cs, readText false (t ++ '"' :: rest) = .ok (cs, rest) := by
  induction h with
  | nothing => exact ⟨[], readText_quote rest⟩
  | plain hquote hslash hprinted _ ih =>
    obtain ⟨cs, hcs⟩ := ih
    rw [List.cons_append, readText_plain hquote hslash hprinted, hcs]
    exact ⟨_, rfl⟩
  | letter h _ ih =>
    obtain ⟨cs, hcs⟩ := ih
    simp only [List.cons_append]
    rw [readText_letter h, hcs]
    exact ⟨_, rfl⟩
  | unit h _ ih =>
    obtain ⟨cs, hcs⟩ := ih
    simp only [List.cons_append]
    rw [readText_unit h rfl rfl, hcs]
    exact ⟨_, rfl⟩

/-! ## 2. Escapes -/

/-- The control characters that are escaped by a letter. -/
def controlLetters : List (Char × Char) :=
  [('\x08', 'b'), ('\x0c', 'f'), ('\n', 'n'), ('\r', 'r'), ('\t', 't')]

/-- What stands for a character in a string that was written: nothing is
escaped but what must be. -/
inductive EscapedAs : Char → List Char → Prop
  | mark {c : Char} (h : c = '"' ∨ c = '\\') : EscapedAs c ['\\', c]
  | letter {c l : Char} (h : (c, l) ∈ controlLetters) : EscapedAs c ['\\', l]
  /-- A control character without a letter, by its number in lower case. -/
  | number {c high low : Char} (hcontrol : c.toNat < 32) (hletter : ∀ l, (c, l) ∉ controlLetters)
      (h : hexUnit? '0' '0' high low = some c.toNat) (hhigh : high.isUpper = false)
      (hlow : low.isUpper = false) : EscapedAs c ['\\', 'u', '0', '0', high, low]
  | plain {c : Char} (hquote : c ≠ '"') (hslash : c ≠ '\\') (hprinted : 32 ≤ c.toNat) :
      EscapedAs c [c]

theorem hexUnit?_hexDigit :
    ∀ n < 32, hexUnit? '0' '0' (hexDigit (n / 16)) (hexDigit (n % 16)) = some n := by
  decide

theorem isUpper_hexDigit : ∀ n < 16, (hexDigit n).isUpper = false := by
  decide

theorem escapedAs_escape (c : Char) : EscapedAs c (escape c) := by
  unfold escape
  split
  next hc => subst hc; exact .mark (.inl rfl)
  split
  next hc => subst hc; exact .mark (.inr rfl)
  split
  next hc => subst hc; exact .letter (by simp [controlLetters])
  split
  next hc => subst hc; exact .letter (by simp [controlLetters])
  split
  next hc => subst hc; exact .letter (by simp [controlLetters])
  split
  next hc => subst hc; exact .letter (by simp [controlLetters])
  split
  next hc => subst hc; exact .letter (by simp [controlLetters])
  split
  next hb hf hn hr ht hcontrol =>
    exact .number hcontrol (fun l => by simp [controlLetters, hb, hf, hn, hr, ht])
      (hexUnit?_hexDigit _ hcontrol) (isUpper_hexDigit _ (by omega)) (isUpper_hexDigit _ (by omega))
  next hquote hslash _ _ _ _ _ hprinted => exact .plain hquote hslash (Nat.not_lt.1 hprinted)

theorem unescape?_of_controlLetters {c l : Char} (h : (c, l) ∈ controlLetters) :
    unescape? l = some c := by
  simp only [controlLetters, List.mem_cons, Prod.mk.injEq, List.not_mem_nil, or_false] at h
  rcases h with ⟨rfl, rfl⟩ | ⟨rfl, rfl⟩ | ⟨rfl, rfl⟩ | ⟨rfl, rfl⟩ | ⟨rfl, rfl⟩ <;> rfl

/-- What stands for a character denotes it. -/
theorem EscapedAs.spells {c : Char} {u t cs : List Char} (hu : EscapedAs c u) (h : Spells t cs) :
    Spells (u ++ t) (c :: cs) := by
  cases hu with
  | mark hc => rcases hc with rfl | rfl <;> exact .letter rfl h
  | letter hl => exact .letter (unescape?_of_controlLetters hl) h
  | number hcontrol _ hunit _ _ =>
    have hspells : Spells _ (Char.ofNat c.toNat :: cs) := .unit hunit
      (by simp only [isHighUnit, Bool.and_eq_false_iff, decide_eq_false_iff_not]; omega)
      (by simp only [isLowUnit, Bool.and_eq_false_iff, decide_eq_false_iff_not]; omega) h
    rwa [Char.ofNat_toNat] at hspells
  | plain hquote hslash hprinted => exact .plain hquote hslash hprinted h

/-- What a string is written as denotes that string. -/
theorem spells_escape (cs : List Char) : Spells (cs.flatMap escape) cs := by
  induction cs with
  | nil => exact .nothing
  | cons c cs ih => exact (escapedAs_escape c).spells ih

/-! ## 3. Spellings of numbers -/

/-- One or more digits. -/
def IsDigits (ds : List Char) : Prop := ds ≠ [] ∧ ∀ d ∈ ds, d.isDigit = true

instance (ds : List Char) : Decidable (IsDigits ds) :=
  decidable_of_iff (ds ≠ [] ∧ ds.all Char.isDigit = true) (and_congr_right' List.all_eq_true)

/-- Digits without a zero in front, or zero alone. -/
def IsWhole (ds : List Char) : Prop := IsDigits ds ∧ (ds.head? = some '0' → ds = ['0'])

instance (ds : List Char) : Decidable (IsWhole ds) :=
  inferInstanceAs (Decidable (IsDigits ds ∧ (ds.head? = some '0' → ds = ['0'])))

/-- The digits behind a point, if there is one. -/
inductive SpellsFraction : List Char → List Char → Prop
  | nothing : SpellsFraction [] []
  | digits {ds : List Char} (h : IsDigits ds) : SpellsFraction ('.' :: ds) ds

/-- How the sign of an exponent is spelled. -/
inductive SpellsSign : List Char → Bool → Prop
  | nothing : SpellsSign [] false
  | plus : SpellsSign ['+'] false
  | minus : SpellsSign ['-'] true

/-- The sign and the digits of an exponent, if there is one. -/
inductive SpellsExponent : List Char → Option (Bool × List Char) → Prop
  | nothing : SpellsExponent [] none
  | power {e : Char} {sign ds : List Char} {minus : Bool} (he : e = 'e' ∨ e = 'E')
      (hsign : SpellsSign sign minus) (hds : IsDigits ds) :
      SpellsExponent (e :: (sign ++ ds)) (some (minus, ds))

/-- A number, and its parts as they are written. -/
inductive SpellsNumber : List Char → NumberText → Prop
  | positive {ds ft fs et : List Char} {ex : Option (Bool × List Char)} (hds : IsWhole ds)
      (hfraction : SpellsFraction ft fs) (hexponent : SpellsExponent et ex) :
      SpellsNumber (ds ++ (ft ++ et)) ⟨false, ds, fs, ex⟩
  | negative {ds ft fs et : List Char} {ex : Option (Bool × List Char)} (hds : IsWhole ds)
      (hfraction : SpellsFraction ft fs) (hexponent : SpellsExponent et ex) :
      SpellsNumber ('-' :: (ds ++ (ft ++ et))) ⟨true, ds, fs, ex⟩

/-! ## 4. Blanks -/

/-- A text of blanks. -/
def Blanks (ws : List Char) : Prop := ∀ c ∈ ws, isBlank c = true

instance (ws : List Char) : Decidable (Blanks ws) :=
  decidable_of_iff (ws.all isBlank = true) List.all_eq_true

theorem skipBlanks_append {ws : List Char} (h : Blanks ws) (cs : List Char) :
    skipBlanks (ws ++ cs) = skipBlanks cs :=
  List.dropWhile_append_of_pos h

theorem skipBlanks_cons {c : Char} (h : isBlank c = false) (cs : List Char) :
    skipBlanks (c :: cs) = c :: cs := by
  rw [skipBlanks, List.dropWhile_cons, h]
  rfl

theorem skipBlanks_append_cons {ws : List Char} (hws : Blanks ws) {c : Char}
    (hc : isBlank c = false) (cs : List Char) : skipBlanks (ws ++ c :: cs) = c :: cs := by
  rw [skipBlanks_append hws, skipBlanks_cons hc]

/-! ## 5. Reading numbers -/

/-- True for what may stand behind a value inside a list or an object. -/
def isDelimiter (c : Char) : Bool := isBlank c || c = ',' || c = ']' || c = '}'

/-- What follows is a delimiter, or there is nothing. -/
def Delimited (rest : List Char) : Prop := ∀ c ∈ rest.head?, isDelimiter c = true

/-- A delimiter belongs to no number. -/
theorem not_number_of_isDelimiter {c : Char} (h : isDelimiter c = true) :
    c.isDigit = false ∧ c ≠ '.' ∧ c ≠ 'e' ∧ c ≠ 'E' := by
  simp only [isDelimiter, isBlank, Bool.or_eq_true, decide_eq_true_eq] at h
  rcases h with (((((rfl | rfl) | rfl) | rfl) | rfl) | rfl) | rfl <;> decide

theorem readDigits_append {ds rest : List Char} (h : IsDigits ds)
    (hrest : ∀ c ∈ rest.head?, c.isDigit = false) : readDigits (ds ++ rest) = .ok (ds, rest) := by
  obtain ⟨hne, hdigits⟩ := h
  have htake : rest.takeWhile Char.isDigit = [] := by
    cases rest with
    | nil => rfl
    | cons c rest => rw [List.takeWhile_cons, hrest c rfl]; rfl
  have hdrop : rest.dropWhile Char.isDigit = rest := by
    cases rest with
    | nil => rfl
    | cons c rest => rw [List.dropWhile_cons, hrest c rfl]; rfl
  cases ds with
  | nil => exact absurd rfl hne
  | cons d ds =>
    have hds : ∀ c ∈ ds, c.isDigit = true := fun c hc => hdigits c (List.mem_cons_of_mem _ hc)
    rw [List.cons_append, readDigits, if_pos (hdigits d List.mem_cons_self),
      List.takeWhile_append_of_pos hds, List.dropWhile_append_of_pos hds, htake, hdrop,
      List.append_nil]

theorem readWhole_append {ds rest : List Char} (h : IsWhole ds)
    (hrest : ∀ c ∈ rest.head?, c.isDigit = false) : readWhole (ds ++ rest) = .ok (ds, rest) := by
  by_cases hzero : ds.head? = some '0'
  · rw [h.2 hzero, List.singleton_append]
    cases rest with
    | nil => rfl
    | cons c rest =>
      rw [readWhole, hrest c rfl]
      rfl
  · cases ds with
    | nil => exact absurd rfl h.1.1
    | cons d ds =>
      rw [readWhole]
      · exact readDigits_append h.1 hrest
      · rintro c cs heq
        rw [List.cons_append, List.cons.injEq] at heq
        exact hzero (congrArg some heq.1)

theorem readFraction_append {ft fs rest : List Char} (h : SpellsFraction ft fs)
    (hdigit : ∀ c ∈ rest.head?, c.isDigit = false) (hpoint : ∀ c ∈ rest.head?, c ≠ '.') :
    readFraction (ft ++ rest) = .ok (fs, rest) := by
  cases h with
  | nothing =>
    rw [List.nil_append, readFraction]
    rintro cs rfl
    exact hpoint '.' rfl rfl
  | digits hds => exact readDigits_append hds hdigit

theorem readExponent_append {et rest : List Char} {ex : Option (Bool × List Char)}
    (h : SpellsExponent et ex) (hdigit : ∀ c ∈ rest.head?, c.isDigit = false)
    (hpower : ∀ c ∈ rest.head?, c ≠ 'e' ∧ c ≠ 'E') :
    readExponent (et ++ rest) = .ok (ex, rest) := by
  cases h with
  | nothing =>
    cases rest with
    | nil => rfl
    | cons c rest =>
      have hc : ¬ (c = 'e' ∨ c = 'E') := not_or.2 (hpower c rfl)
      unfold readExponent
      simp only [List.nil_append, if_neg hc]
  | @power e sign ds minus he hsign hds =>
    have hread := readDigits_append hds hdigit
    rw [List.cons_append, List.append_assoc]
    cases hsign with
    | nothing =>
      obtain ⟨d, ds, rfl⟩ := List.exists_cons_of_ne_nil hds.1
      have hsigned : d ≠ '+' ∧ d ≠ '-' := by
        have hd := hds.2 d List.mem_cons_self
        constructor <;> rintro rfl <;> exact absurd hd (by decide)
      rw [List.nil_append, readExponent, if_pos he, hread]
      · rfl
      · rintro cs heq
        exact hsigned.1 (List.cons.inj heq).1
      · rintro cs heq
        exact hsigned.2 (List.cons.inj heq).1
    | plus =>
      rw [List.singleton_append, readExponent, if_pos he, hread]
      rfl
    | minus =>
      rw [List.singleton_append, readExponent, if_pos he, hread]
      rfl

theorem SpellsExponent.head {et rest : List Char} {ex : Option (Bool × List Char)}
    (h : SpellsExponent et ex) : ∀ c ∈ (et ++ rest).head?, c = 'e' ∨ c = 'E' ∨ c ∈ rest.head? := by
  intro c hc
  cases h with
  | nothing => exact .inr (.inr hc)
  | power he _ _ =>
    cases Option.mem_some_iff.1 hc
    exact he.imp id .inl

theorem SpellsFraction.head {ft fs rest : List Char} (h : SpellsFraction ft fs) :
    ∀ c ∈ (ft ++ rest).head?, c = '.' ∨ c ∈ rest.head? := by
  intro c hc
  cases h with
  | nothing => exact .inr hc
  | digits _ =>
    cases Option.mem_some_iff.1 hc
    exact .inl rfl

/-- A whole number starts with a digit, so it has no sign. -/
theorem IsWhole.head {ds : List Char} (h : IsWhole ds) :
    ∃ d t, ds = d :: t ∧ d.isDigit = true := by
  obtain ⟨d, t, rfl⟩ := List.exists_cons_of_ne_nil h.1.1
  exact ⟨d, t, rfl, h.1.2 d List.mem_cons_self⟩

/-- The parts of a number behind its sign are read one after the other. -/
theorem readParts_spell {ds ft fs et rest : List Char} {ex : Option (Bool × List Char)}
    (hds : IsWhole ds) (hfraction : SpellsFraction ft fs) (hexponent : SpellsExponent et ex)
    (hrest : Delimited rest) :
    readWhole (ds ++ (ft ++ et) ++ rest) = .ok (ds, ft ++ (et ++ rest)) ∧
      readFraction (ft ++ (et ++ rest)) = .ok (fs, et ++ rest) ∧
      readExponent (et ++ rest) = .ok (ex, rest) := by
  have hend := fun c hc => not_number_of_isDelimiter (hrest c hc)
  have hexp : ∀ c ∈ (et ++ rest).head?, c.isDigit = false ∧ c ≠ '.' := by
    intro c hc
    rcases hexponent.head c hc with rfl | rfl | hc
    · decide
    · decide
    · exact ⟨(hend c hc).1, (hend c hc).2.1⟩
  have hfrac : ∀ c ∈ (ft ++ (et ++ rest)).head?, c.isDigit = false := by
    intro c hc
    rcases hfraction.head c hc with rfl | hc
    · decide
    · exact (hexp c hc).1
  rw [List.append_assoc, List.append_assoc]
  exact ⟨readWhole_append hds hfrac,
    readFraction_append hfraction (fun c hc => (hexp c hc).1) fun c hc => (hexp c hc).2,
    readExponent_append hexponent (fun c hc => (hend c hc).1) fun c hc => (hend c hc).2.2⟩

/-- A number is read as it is written, up to a delimiter. -/
theorem readNumberText_spells {t : List Char} {n : NumberText} (h : SpellsNumber t n)
    {rest : List Char} (hrest : Delimited rest) : readNumberText (t ++ rest) = .ok (n, rest) := by
  cases h with
  | positive hds hfraction hexponent =>
    obtain ⟨hwhole, hfrac, hexp⟩ := readParts_spell hds hfraction hexponent hrest
    obtain ⟨d, ds, rfl, hd⟩ := hds.head
    have hsign : d ≠ '-' := by
      rintro rfl
      exact absurd hd (by decide)
    rw [readNumberText]
    · simp only [hwhole, hfrac, hexp, bind, Except.bind]
      rfl
    · intro cs heq
      exact hsign (List.cons.inj heq).1
  | negative hds hfraction hexponent =>
    obtain ⟨hwhole, hfrac, hexp⟩ := readParts_spell hds hfraction hexponent hrest
    rw [List.cons_append, readNumberText]
    simp only [hwhole, hfrac, hexp, bind, Except.bind]
    rfl

theorem SpellsNumber.head {t : List Char} {n : NumberText} (h : SpellsNumber t n) :
    ∃ c u, t = c :: u ∧ (c = '-' ∨ c.isDigit = true) := by
  cases h with
  | positive hds _ _ =>
    obtain ⟨d, ds, rfl, hd⟩ := hds.head
    exact ⟨d, _, rfl, .inr hd⟩
  | negative _ _ _ => exact ⟨'-', _, rfl, .inl rfl⟩

/-! ## 6. Words -/

/-- The words, and what they stand for. -/
inductive SpellsWord : List Char → Token → Prop
  | null : SpellsWord ['n', 'u', 'l', 'l'] .null
  | yes : SpellsWord ['t', 'r', 'u', 'e'] (.bool true)
  | no : SpellsWord ['f', 'a', 'l', 's', 'e'] (.bool false)

/-- A word behind blanks is read as what it stands for. -/
theorem readToken_word {w : List Char} {t : Token} (h : SpellsWord w t) (wanted : Bool)
    {ws : List Char} (hws : Blanks ws) (rest : List Char) :
    readToken wanted (ws ++ (w ++ rest)) = .ok (t, rest) := by
  rw [readToken, skipBlanks_append hws]
  cases h <;> rfl

theorem readItem_word {w : List Char} {t : Token} (h : SpellsWord w t) {ws : List Char}
    (hws : Blanks ws) (rest : List Char) :
    readItem (ws ++ (w ++ rest)) = t.item.map fun i => (i, rest) := by
  rw [readItem, readToken_word h true hws]
  cases h <;> rfl

/-! ## 7. Numerals -/

/-- A numeral does not start with a zero unless it is zero. -/
theorem isWhole_toDigits (n : Nat) : IsWhole (Nat.toDigits 10 n) := by
  refine ⟨⟨Nat.toDigits_ne_nil, fun d hd => ?_⟩, ?_⟩
  · exact Nat.isDigit_of_mem_toDigits (by decide) (by decide) hd
  · induction n using Nat.strongRecOn with
    | ind n ih =>
      intro hzero
      by_cases hn : n < 10
      · rw [Nat.toDigits_of_lt_base hn, List.head?_cons, Option.some.injEq] at hzero
        rw [Nat.toDigits_of_lt_base hn, hzero]
      · -- the last digit aside, the numeral is that of a smaller number, which is not zero
        have hsplit := Nat.toDigits_of_base_le (by decide) (Nat.not_lt.1 hn)
        have hfront : (Nat.toDigits 10 (n / 10)).head? = some '0' := by
          obtain ⟨d, ds, hds⟩ :=
            List.exists_cons_of_ne_nil (Nat.toDigits_ne_nil (n := n / 10) (b := 10))
          rw [hsplit, hds] at hzero
          rw [hds]
          exact hzero
        have hfront' := ih (n / 10) (by omega) hfront
        have hdigits := Nat.ofDigitChars_ten_toDigits (n := n / 10)
        rw [hfront'] at hdigits
        have : n / 10 = 0 := hdigits.symm
        omega

theorem spellsNumber_toDigits (n : Nat) :
    SpellsNumber (Nat.toDigits 10 n) ⟨false, Nat.toDigits 10 n, [], none⟩ := by
  have h := SpellsNumber.positive (isWhole_toDigits n) .nothing .nothing
  rwa [List.append_nil, List.append_nil] at h

/-- Appending digits to a number does not make it smaller. -/
theorem le_ofDigitChars (ds : List Char) : ∀ m : Nat, m ≤ Nat.ofDigitChars 10 ds m := by
  induction ds with
  | nil => intro m; exact Nat.le_refl m
  | cons d ds ih =>
    intro m
    rw [Nat.ofDigitChars_cons]
    exact Nat.le_trans (by omega) (ih _)

/-- Digits are gathered to the end as long as their number is a word. -/
theorem gatherDigits_of_lt (ds : List Char) : ∀ {m : Nat},
    Nat.ofDigitChars 10 ds m < UInt64.size →
      gatherDigits m ds = (Nat.ofDigitChars 10 ds m, ds.length, 0) := by
  induction ds with
  | nil => intro m _; rfl
  | cons d ds ih =>
    intro m h
    rw [Nat.ofDigitChars_cons] at h ⊢
    have hhere : 10 * m + (d.toNat - '0'.toNat) < UInt64.size :=
      Nat.lt_of_le_of_lt (le_ofDigitChars ds _) h
    rw [gatherDigits]
    simp only [if_pos hhere, ih h, List.length_cons]

theorem readToken_number {wanted : Bool} {cs u : List Char} {c : Char}
    (h : skipBlanks cs = c :: u) (hc : c = '-' ∨ c.isDigit = true) :
    readToken wanted cs = readNumberToken wanted (c :: u) := by
  unfold readToken
  rw [h]
  split
  case h_8 heq =>
    obtain ⟨rfl, rfl⟩ := List.cons.inj heq
    exact if_pos hc
  -- neither a minus nor a digit starts anything else
  all_goals simp_all

theorem isBlank_of_number {c : Char} (hc : c = '-' ∨ c.isDigit = true) : isBlank c = false := by
  rw [← Bool.not_eq_true]
  intro hblank
  simp only [isBlank, Bool.or_eq_true, decide_eq_true_eq] at hblank
  rcases hblank with ((rfl | rfl) | rfl) | rfl <;> exact absurd hc (by decide)

/-- A number behind blanks is read as it is written, up to a delimiter. -/
theorem readToken_spellsNumber {t : List Char} {n : NumberText} (h : SpellsNumber t n)
    {ws rest : List Char} (hws : Blanks ws) (hrest : Delimited rest) (wanted : Bool) :
    readToken wanted (ws ++ (t ++ rest)) = .ok (.number n, rest) := by
  have hread := readNumberText_spells h hrest
  obtain ⟨c, u, rfl, hc⟩ := h.head
  rw [List.cons_append] at hread ⊢
  rw [readToken_number (skipBlanks_append_cons hws (isBlank_of_number hc) (u ++ rest)) hc,
    readNumberToken, hread]

/-- A numeral behind blanks is read as the word it denotes, up to a
delimiter. -/
theorem readItem_numeral (n : UInt64) {ws rest : List Char} (hws : Blanks ws)
    (hrest : Delimited rest) :
    readItem (ws ++ (Nat.toDigits 10 n.toNat ++ rest)) = .ok (.number (.natural n), rest) := by
  have hdigits : Nat.ofDigitChars 10 (Nat.toDigits 10 n.toNat) 0 = n.toNat :=
    Nat.ofDigitChars_ten_toDigits
  have hgather := gatherDigits_of_lt (Nat.toDigits 10 n.toNat) (m := 0)
    (by rw [hdigits]; exact n.toNat_lt)
  have hevaluate : NumberText.evaluate ⟨false, Nat.toDigits 10 n.toNat, [], none⟩ =
      .ok (.natural n) := by
    simp only [NumberText.evaluate, hgather, hdigits, and_self, if_true, UInt64.ofNat_toNat]
  rw [readItem, readToken_spellsNumber (spellsNumber_toDigits n.toNat) hws hrest]
  simp only [bind, Except.bind, Token.item, hevaluate, Except.map]
  rfl

/-- A string behind blanks is read as what it denotes. -/
theorem readItem_text {t cs : List Char} (h : Spells t cs) {ws : List Char} (hws : Blanks ws)
    (rest : List Char) :
    readItem (ws ++ '"' :: (t ++ '"' :: rest)) = .ok (.text (String.ofList cs), rest) := by
  rw [readItem, readToken, skipBlanks_append_cons hws (by decide)]
  simp only [readText_spells h, Except.map, bind, Except.bind]
  rfl

end CursorTree.Json
