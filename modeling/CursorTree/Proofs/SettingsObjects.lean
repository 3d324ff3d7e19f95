/-
CursorTree.Proofs.SettingsObjects — settings from an object are settings
built one field at a time.

An object of settings is spelled with blanks anywhere, with its members in
any order, and with members of other names in between (`SpellsSettings`).
What its members say is at the same time a list of setters, one for every
field that is given and is not null.

Reading gathers the fields from left to right.  As long as no field is
given twice, each member it passes changes the gathered fields the way its
setter changes settings (`Given.settings_give`), and members of other names
change nothing, whatever they hold.  Setters of different fields commute, so
their order is of no account.
-/
import CursorTree.Proofs.Skipping
import CursorTree.Settings.Load
import Mathlib.Data.List.Nodup

namespace CursorTree.Settings

open CursorTree.Json

/-! ## 1. Setters -/

/-- One field of settings, set to a value. -/
inductive Setter where
  | optimize (b : Bool)
  | maxPasses (n : UInt64)
  | logFilter (f : String)
  | resultLimit (n : UInt64)

namespace Setter

/-- The field that is set. -/
def field : Setter → Field
  | optimize _ => .optimize
  | maxPasses _ => .maxPasses
  | logFilter _ => .logFilter
  | resultLimit _ => .resultLimit

/-- Settings with the field set. -/
def apply (s : Settings) : Setter → Settings
  | optimize b => s.withOptimize b
  | maxPasses n => s.withMaxPasses n.toNat
  | logFilter f => s.withLogFilter f
  | resultLimit n => s.withResultLimit n.toNat

/-- Setters of different fields commute. -/
theorem apply_comm {a b : Setter} (h : a.field ≠ b.field) (s : Settings) :
    apply (apply s a) b = apply (apply s b) a := by
  -- two setters of one field are excluded, and all others write apart
  cases a <;> cases b <;> first | exact absurd rfl h | rfl

/-- Setters of different fields may be applied in any order. -/
theorem foldl_apply_perm {as bs : List Setter} (h : as.Perm bs) (hfields : (as.map field).Nodup)
    (s : Settings) : as.foldl apply s = bs.foldl apply s := by
  refine h.foldl_eq' (fun a ha b hb s => ?_) s
  by_cases hab : a.field = b.field
  · rw [List.inj_on_of_nodup_map hfields ha hb hab]
  · exact apply_comm hab s

end Setter

/-! ## 2. Spellings -/

/-- What a member of an object of settings says. -/
inductive Member where
  /-- A field is given a value. -/
  | setting (a : Setter)
  /-- The limit is null. -/
  | noLimit
  /-- A member of another name. -/
  | other (key : String)

namespace Member

/-- The field that a member gives. -/
def field? : Member → Option Field
  | setting a => some a.field
  | noLimit => some .resultLimit
  | other _ => none

/-- The setter of a field that is not null. -/
def setter? : Member → Option Setter
  | setting a => some a
  | _ => none

/-- The name of a member. -/
def key : Member → String
  | setting a => a.field.key
  | noLimit => Field.resultLimit.key
  | other k => k

end Member

/-- How the value of a member is spelled. -/
inductive SpellsValue : Member → List Char → Prop
  | optimize {b : Bool} {w : List Char} (h : SpellsWord w (.bool b)) :
      SpellsValue (.setting (.optimize b)) w
  | maxPasses (n : UInt64) :
      SpellsValue (.setting (.maxPasses n)) (Nat.toDigits 10 n.toNat)
  | logFilter {f : String} {t : List Char} (h : Spells t f.toList) :
      SpellsValue (.setting (.logFilter f)) ('"' :: (t ++ ['"']))
  | resultLimit (n : UInt64) :
      SpellsValue (.setting (.resultLimit n)) (Nat.toDigits 10 n.toNat)
  | noLimit {w : List Char} (h : SpellsWord w .null) : SpellsValue .noLimit w
  /-- The value of an unknown member may be any. -/
  | other {k : String} {t : List Char} (hk : ∀ f : Field, f.key ≠ k)
      (ht : WellFormed .value t) : SpellsValue (.other k) t

/-- How a member is spelled, with the blanks around it. -/
inductive SpellsMember : Member → List Char → Prop
  | intro {m : Member} {ws k ws₁ ws₂ v ws₃ : List Char} (hws : Blanks ws)
      (hk : Spells k m.key.toList) (hws₁ : Blanks ws₁) (hws₂ : Blanks ws₂)
      (hv : SpellsValue m v) (hws₃ : Blanks ws₃) :
      SpellsMember m (ws ++ '"' :: (k ++ '"' :: (ws₁ ++ ':' :: (ws₂ ++ (v ++ ws₃)))))

/-- How one or more members are spelled, with commas between them. -/
inductive SpellsMembers : List Member → List Char → Prop
  | last {m : Member} {t : List Char} (h : SpellsMember m t) : SpellsMembers [m] t
  | more {m : Member} {ms : List Member} {t u : List Char} (h : SpellsMember m t)
      (hu : SpellsMembers ms u) : SpellsMembers (m :: ms) (t ++ ',' :: u)

/-- How an object of settings is spelled. -/
inductive SpellsSettings : List Member → List Char → Prop
  | empty {ws ws₁ ws₂ : List Char} (hws : Blanks ws) (hws₁ : Blanks ws₁) (hws₂ : Blanks ws₂) :
      SpellsSettings [] (ws ++ '{' :: (ws₁ ++ '}' :: ws₂))
  | members {ms : List Member} {ws t ws₁ : List Char} (hws : Blanks ws)
      (ht : SpellsMembers ms t) (hws₁ : Blanks ws₁) :
      SpellsSettings ms (ws ++ '{' :: (t ++ '}' :: ws₁))

/-! ## 3. What is gathered -/

namespace Given

/-- The gathered fields behind a member. -/
def give (g : Given) : Member → Given
  | .setting (.optimize b) => { g with optimize := some b }
  | .setting (.maxPasses n) => { g with maxPasses := some n.toNat }
  | .setting (.logFilter f) => { g with logFilter := some f }
  | .setting (.resultLimit n) => { g with resultLimit := some (some n.toNat) }
  | .noLimit => { g with resultLimit := some none }
  | .other _ => g

/-- No field that a member gives has been given before. -/
def Fresh (g : Given) (ms : List Member) : Prop :=
  (ms.filterMap Member.field?).Nodup ∧ ∀ m ∈ ms, ∀ f, m.field? = some f → g.has f = false

theorem has_give_eq_false {g : Given} {m : Member} {f : Field} :
    (g.give m).has f = false ↔ g.has f = false ∧ m.field? ≠ some f := by
  cases m with
  | setting a => cases a <;> cases f <;> simp [give, has, Member.field?, Setter.field]
  | noLimit => cases f <;> simp [give, has, Member.field?]
  | other k => simp [give, Member.field?]

theorem Fresh.head {g : Given} {m : Member} {ms : List Member} (h : g.Fresh (m :: ms)) {f : Field}
    (hf : m.field? = some f) : g.has f = false :=
  h.2 m List.mem_cons_self f hf

/-- What is fresh behind a member has not been given by it. -/
theorem Fresh.tail {g : Given} {m : Member} {ms : List Member} (h : g.Fresh (m :: ms)) :
    (g.give m).Fresh ms := by
  obtain ⟨hnodup, hfresh⟩ := h
  have hbehind := (List.sublist_cons_self m ms).filterMap Member.field?
  refine ⟨hnodup.sublist hbehind, fun m' hm' f hf => has_give_eq_false.2 ⟨?_, fun heq => ?_⟩⟩
  · exact hfresh m' (List.mem_cons_of_mem m hm') f hf
  · rw [List.filterMap_cons_some heq, List.nodup_cons] at hnodup
    exact hnodup.1 (List.mem_filterMap.2 ⟨m', hm', hf⟩)

/-- A member changes what is gathered the way its setter changes settings. -/
theorem settings_give {g : Given} {m : Member} (h : ∀ f, m.field? = some f → g.has f = false) :
    (g.give m).settings = m.setter?.toList.foldl Setter.apply g.settings := by
  cases m with
  | setting a => cases a <;> rfl
  | other k => rfl
  | noLimit =>
    -- null is the default, so nothing changes unless a limit has been given
    have hnone : g.resultLimit = none := Option.not_isSome_iff_eq_none.1 (by
      rw [Bool.not_eq_true]
      exact h .resultLimit rfl)
    simp [give, settings, Member.setter?, hnone]

/-- The members change what is gathered the way their setters change
settings. -/
theorem settings_foldl_give (ms : List Member) : ∀ {g : Given}, g.Fresh ms →
    (ms.foldl give g).settings = (ms.filterMap Member.setter?).foldl Setter.apply g.settings := by
  induction ms with
  | nil => intro g _; rfl
  | cons m ms ih =>
    intro g h
    have hhead := settings_give (m := m) fun f => h.head
    rw [List.foldl_cons, ih h.tail, hhead]
    cases hsetter : m.setter? with
    | none => rw [List.filterMap_cons_none hsetter]; rfl
    | some a => rw [List.filterMap_cons_some hsetter]; rfl

end Given

/-! ## 4. Reading -/

theorem Field.ofKey?_key (f : Field) : Field.ofKey? f.key = some f := by
  cases f <;> rfl

theorem Field.ofKey?_eq_none {k : String} (h : ∀ f : Field, f.key ≠ k) : Field.ofKey? k = none :=
  List.find?_eq_none.2 fun f _ => by simpa using h f

/-- The name of a member tells the field that it gives. -/
theorem SpellsValue.ofKey? {m : Member} {v : List Char} (h : SpellsValue m v) :
    Field.ofKey? m.key = m.field? := by
  cases m with
  | setting a => exact Field.ofKey?_key a.field
  | noLimit => exact Field.ofKey?_key .resultLimit
  | other k =>
    cases h with
    | other hk _ => exact Field.ofKey?_eq_none hk

/-- The value of a field is read and gathered. -/
theorem SpellsValue.readField {m : Member} {v : List Char} (h : SpellsValue m v) (g : Given)
    {f : Field} (hf : m.field? = some f) {ws rest : List Char} (hws : Blanks ws)
    (hrest : Delimited rest) : readField g f (ws ++ (v ++ rest)) = .ok (g.give m, rest) := by
  have hread : ∃ i, readItem (ws ++ (v ++ rest)) = .ok (i, rest) ∧ g.take f i = .ok (g.give m) := by
    cases h with
    | optimize h | noLimit h =>
      cases hf
      exact ⟨_, readItem_word h hws rest, rfl⟩
    | maxPasses n | resultLimit n =>
      cases hf
      exact ⟨_, readItem_numeral n hws hrest, rfl⟩
    | @logFilter s t ht =>
      cases hf
      have hitem := readItem_text ht hws rest
      rw [String.ofList_toList] at hitem
      refine ⟨.text s, ?_, rfl⟩
      rw [List.cons_append, List.append_assoc, List.singleton_append, hitem]
    | other _ _ => cases hf
  obtain ⟨i, hitem, htake⟩ := hread
  rw [Settings.readField, hitem]
  simp only [require, bind, Except.bind, htake]
  rfl

/-- A member is read behind the quote that opens its name. -/
theorem readMember_spells {m : Member} {g : Given} {k ws₁ ws₂ v : List Char}
    (hk : Spells k m.key.toList) (hws₁ : Blanks ws₁) (hws₂ : Blanks ws₂) (hv : SpellsValue m v)
    (hfresh : ∀ f, m.field? = some f → g.has f = false) {rest : List Char}
    (hrest : Delimited rest) :
    readMember g (k ++ '"' :: (ws₁ ++ ':' :: (ws₂ ++ (v ++ rest)))) = .ok (g.give m, rest) := by
  have hcolon : readColon (ws₁ ++ ':' :: (ws₂ ++ (v ++ rest))) = .ok (ws₂ ++ (v ++ rest)) := by
    rw [readColon, skipBlanks_append_cons hws₁ (by decide)]
    rfl
  rw [readMember, readText_spells hk]
  simp only [require, bind, Except.bind, String.ofList_toList, hv.ofKey?, hcolon]
  cases hfield : m.field? with
  | some f =>
    simp only [hfresh f hfield, Bool.false_eq_true, if_false]
    exact hv.readField g hfield hws₂ hrest
  | none =>
    cases hv with
    | other _ ht =>
      simp only [skipValue_wellFormed ht hws₂ hrest]
      rfl
    | optimize _ | noLimit _ | maxPasses _ | logFilter _ | resultLimit _ => cases hfield

theorem toMember_end (first : Bool) {ws : List Char} (hws : Blanks ws) (rest : List Char) :
    toMember first (ws ++ '}' :: rest) = .ok (.ended rest) := by
  rw [toMember, skipBlanks_append_cons hws (by decide)]
  rfl

theorem toMember_first {ws : List Char} (hws : Blanks ws) (cs : List Char) :
    toMember true (ws ++ '"' :: cs) = .ok (.part cs) := by
  rw [toMember, skipBlanks_append_cons hws (by decide)]
  rfl

theorem toMember_comma {ws ws' : List Char} (hws : Blanks ws) (hws' : Blanks ws')
    (cs : List Char) : toMember false (ws ++ ',' :: (ws' ++ '"' :: cs)) = .ok (.part cs) := by
  have hcomma : skipBlanks (ws ++ ',' :: (ws' ++ '"' :: cs)) = ',' :: (ws' ++ '"' :: cs) :=
    skipBlanks_append_cons hws (by decide) _
  have hquote : skipBlanks (ws' ++ '"' :: cs) = '"' :: cs :=
    skipBlanks_append_cons hws' (by decide) cs
  unfold toMember
  rw [hcomma]
  simp [hquote]

/-- Behind a comma the members are read as at the beginning. -/
theorem readMembers_comma {most : Nat} {g : Given} {ws ws' : List Char} (hws : Blanks ws)
    (hws' : Blanks ws') (cs : List Char) :
    readMembers most false g (ws ++ ',' :: (ws' ++ '"' :: cs)) =
      readMembers most true g (ws' ++ '"' :: cs) := by
  cases most with
  | zero => rfl
  | succ most => rw [readMembers, readMembers, toMember_comma hws hws', toMember_first hws']

theorem SpellsMember.head {m : Member} {t : List Char} (h : SpellsMember m t) :
    ∃ ws cs, Blanks ws ∧ t = ws ++ '"' :: cs := by
  cases h with
  | intro hws _ _ _ _ _ => exact ⟨_, _, hws, rfl⟩

theorem SpellsMembers.head {ms : List Member} {t : List Char} (h : SpellsMembers ms t) :
    ∃ ws cs, Blanks ws ∧ t = ws ++ '"' :: cs := by
  cases h with
  | last h => exact h.head
  | @more _ _ _ u h _ =>
    obtain ⟨ws, cs, hws, rfl⟩ := h.head
    exact ⟨ws, cs ++ ',' :: u, hws, by rw [List.append_assoc, List.cons_append]⟩

theorem SpellsMembers.length_le {ms : List Member} {t : List Char} (h : SpellsMembers ms t) :
    ms.length ≤ t.length := by
  induction h with
  | @last m t h =>
    cases h with
    | intro _ _ _ _ _ _ =>
      simp only [List.length_append, List.length_cons, List.length_nil]
      omega
  | more _ _ ih =>
    simp only [List.length_append, List.length_cons]
    omega

/-- The first member is gathered, and the others are read behind it. -/
theorem readMembers_first {m : Member} {t : List Char} (h : SpellsMember m t) {g : Given}
    (hfresh : ∀ f, m.field? = some f → g.has f = false) (most : Nat) {d : Char}
    (hd : isDelimiter d = true) (cs : List Char) :
    ∃ ws, Blanks ws ∧ readMembers (most + 1) true g (t ++ d :: cs) =
      readMembers most false (g.give m) (ws ++ d :: cs) := by
  cases h with
  | @intro ws k ws₁ ws₂ v ws₃ hws hk hws₁ hws₂ hv hws₃ =>
    have hread := readMember_spells hk hws₁ hws₂ hv hfresh (delimited_blanks hws₃ hd cs)
    refine ⟨ws₃, hws₃, ?_⟩
    simp only [List.append_assoc, List.cons_append]
    rw [readMembers, toMember_first hws]
    simp only [require, bind, Except.bind, hread]

/-- The members are gathered one after the other, up to the brace. -/
theorem readMembers_spells {ms : List Member} {t : List Char} (h : SpellsMembers ms t)
    (rest : List Char) : ∀ {g : Given} {most : Nat}, g.Fresh ms → ms.length < most →
      readMembers most true g (t ++ '}' :: rest) = .ok (ms.foldl Given.give g, rest) := by
  induction h with
  | @last m t h =>
    intro g most hfresh hmost
    obtain ⟨most, rfl⟩ := Nat.exists_eq_add_one_of_ne_zero (Nat.ne_zero_of_lt hmost)
    obtain ⟨ws, hws, hfirst⟩ := readMembers_first h (fun f => hfresh.head) most
      (by decide : isDelimiter '}' = true) rest
    obtain ⟨most, rfl⟩ := Nat.exists_eq_add_one_of_ne_zero
      (Nat.ne_zero_of_lt (Nat.lt_of_succ_lt_succ hmost))
    rw [hfirst, readMembers, toMember_end false hws]
    rfl
  | @more m ms t u h hu ih =>
    intro g most hfresh hmost
    obtain ⟨most, rfl⟩ := Nat.exists_eq_add_one_of_ne_zero (Nat.ne_zero_of_lt hmost)
    obtain ⟨ws, hws, hfirst⟩ := readMembers_first h (fun f => hfresh.head) most
      (by decide : isDelimiter ',' = true) (u ++ '}' :: rest)
    have hbehind := ih hfresh.tail (Nat.lt_of_succ_lt_succ hmost)
    obtain ⟨ws', cs, hws', rfl⟩ := hu.head
    rw [List.append_assoc, List.cons_append] at hfirst hbehind
    rw [List.append_assoc, List.cons_append, List.append_assoc, List.cons_append, hfirst,
      readMembers_comma hws hws', hbehind]
    rfl

/-! ## 5. Settings -/

theorem readItem_brace {ws : List Char} (hws : Blanks ws) (cs : List Char) :
    readItem (ws ++ '{' :: cs) = .ok (.opening .object, cs) := by
  rw [readItem, readToken, skipBlanks_append_cons hws (by decide)]
  rfl

theorem finish_blanks {ws : List Char} (hws : Blanks ws) : finish ws = .ok () := by
  have hskip := skipBlanks_append hws []
  rw [List.append_nil] at hskip
  rw [finish, hskip]
  rfl

/-- An object is read as what its members give. -/
theorem parse_spells {ms : List Member} {t : List Char} (h : SpellsSettings ms t)
    (hfresh : ({} : Given).Fresh ms) : parse t = .ok (ms.foldl Given.give {}).settings := by
  have hread : ∀ {ws cs ws' : List Char} {g : Given}, Blanks ws → Blanks ws' →
      readMembers (cs.length + 1) true {} cs = .ok (g, ws') →
        parse (ws ++ '{' :: cs) = .ok g.settings := by
    intro ws cs ws' g hws hws' hmembers
    rw [parse, readGiven, readItem_brace hws]
    simp only [require, bind, Except.bind, hmembers, finish_blanks hws']
    rfl
  cases h with
  | @empty ws ws₁ ws₂ hws hws₁ hws₂ =>
    refine hread hws hws₂ ?_
    rw [readMembers, toMember_end true hws₁]
    rfl
  | @members _ ws t ws₁ hws ht hws₁ =>
    refine hread hws hws₁ (readMembers_spells ht ws₁ hfresh ?_)
    have hlength := ht.length_le
    rw [List.length_append]
    omega

/-- What is parsed is validated. -/
theorem ofJson_of_parse {text : String} {s : Settings} (h : parse text.toList = .ok s) :
    ofJson text = s.validate.mapError .invalid := by
  unfold ofJson
  rw [h]
  cases hvalidate : s.validate <;> simp [hvalidate, Except.mapError]

/-- Every setter sets a field that is given. -/
theorem map_field_setters (ms : List Member) :
    ((ms.filterMap Member.setter?).map Setter.field).Sublist (ms.filterMap Member.field?) := by
  induction ms with
  | nil => exact .slnil
  | cons m ms ih =>
    cases m with
    | setting a => exact ih.cons_cons a.field
    | noLimit => exact ih.cons Field.resultLimit
    | other k => exact ih

/-- Settings that are read from an object, none of whose fields is given
twice, are the settings that the setters of its fields build in any order,
validated.  What is read from any text whatever is valid.  A defect is
reported under the name of the field that has it. -/
theorem ofJson_object_eq_built :
    (∀ (text : String) (ms : List Member) (as : List Setter),
      SpellsSettings ms text.toList → (ms.filterMap Member.field?).Nodup →
        as.Perm (ms.filterMap Member.setter?) →
        let built : Settings := as.foldl Setter.apply {}
        ofJson text = built.validate.mapError .invalid ∧
          ofJson text =
            if built.maxPasses = 0 then .error (.invalid .noPass)
            else if built.resultLimit = some 0 then .error (.invalid .noRow)
            else .ok built) ∧
      (∀ text s, ofJson text = .ok s → s.validate = .ok s) ∧
      (LoadError.invalid .noPass).message =
        "invalid configuration: " ++ Field.maxPasses.key ++ " must be at least 1" ∧
      (LoadError.invalid .noRow).message =
        "invalid configuration: " ++ Field.resultLimit.key ++ " must be at least 1 when set" := by
  refine ⟨?_, ?_, rfl, rfl⟩
  · intro text ms as htext hfields has built
    have hfresh : ({} : Given).Fresh ms := ⟨hfields, fun m _ f _ => by cases f <;> rfl⟩
    have hsetters : (as.map Setter.field).Nodup :=
      (has.map Setter.field).nodup_iff.2 (hfields.sublist (map_field_setters ms))
    have hgiven : (ms.foldl Given.give {}).settings = built := by
      rw [Given.settings_foldl_give ms hfresh]
      exact (Setter.foldl_apply_perm has hsetters {}).symm
    have hread : ofJson text = built.validate.mapError .invalid := by
      rw [← hgiven]
      exact ofJson_of_parse (parse_spells htext hfresh)
    refine ⟨hread, ?_⟩
    rw [hread, validate_eq]
    split
    · rfl
    · split <;> rfl
  · intro text s h
    have hdefect := defect?_of_ofJson h
    unfold validate
    rw [hdefect]

/-- Of two defects the missing pass is reported, whichever stands first. -/
example : ofJson "\x7b\"result_limit\":0,\"max_optimize_passes\":0\x7d" =
    .error (.invalid .noPass) := rfl

/-- A text with blanks, a name that is spelled with an escape, and an
unknown member that holds a nested list. -/
def looseText : String :=
  "\t\x7b \"result_limit\" : 5 , \"x\\n\":[\x7b\x7d,\"\\ud800]\" ,-1.5E+3],\"\\u006fptimize\":false\x7d\n"

def looseMembers : List Member :=
  [.setting (.resultLimit 5), .other "x\n", .setting (.optimize false)]

theorem looseText_spells : SpellsSettings looseMembers looseText.toList := by
  have hnone : Blanks [] := by decide
  have hspace : Blanks [' '] := by decide
  have htab : Blanks ['\t'] := by decide
  have hline : Blanks ['\n'] := by decide
  have hlimit := SpellsMember.intro (m := .setting (.resultLimit 5)) hspace
    (spells_escape "result_limit".toList) hspace hspace (.resultLimit 5) hspace
  have hhalf : IsText ['\\', 'u', 'd', '8', '0', '0', ']'] :=
    .unit rfl (.plain (by decide) (by decide) (by decide) .nothing)
  have hone : IsWhole ['1'] := by decide
  have hfive : IsDigits ['5'] := by decide
  have hthree : IsDigits ['3'] := by decide
  have hnumber := SpellsNumber.negative hone (.digits hfive)
    (.power (.inr rfl : 'E' = 'e' ∨ 'E' = 'E') .plus hthree)
  have hvalue := WellFormed.nested (.more .list hnone (.empty .object hnone) hnone
    (.more .list hnone (.scalar (.text hhalf)) hspace
      (.last .list hnone (.scalar (.number hnumber)) hnone)))
  have hunknown := SpellsMember.intro (m := .other "x\n") hspace (spells_escape "x\n".toList)
    hnone hnone (.other (fun f => by cases f <;> decide) hvalue) hnone
  have hletter : hexUnit? '0' '0' '6' 'f' = some 'o'.toNat := rfl
  have hoptimize := SpellsMember.intro (m := .setting (.optimize false)) hnone
    (.unit hletter rfl rfl (spells_escape "ptimize".toList)) hnone hnone (.optimize .no) hnone
  exact .members htab (.more hlimit (.more hunknown (.last hoptimize))) hline

theorem looseText_settings :
    ofJson looseText = .ok { optimize := false, resultLimit := some 5 } ∧
      validate { optimize := false, resultLimit := some 5 } =
        .ok { optimize := false, resultLimit := some 5 } := by
  have hsetters : [Setter.optimize false, .resultLimit 5].Perm
      (looseMembers.filterMap Member.setter?) := .swap _ _ _
  have hread : ofJson looseText = .ok { optimize := false, resultLimit := some 5 } :=
    (ofJson_object_eq_built.1 looseText looseMembers _ looseText_spells (by decide) hsetters).2
  exact ⟨hread, ofJson_object_eq_built.2.1 _ _ hread⟩

end CursorTree.Settings
