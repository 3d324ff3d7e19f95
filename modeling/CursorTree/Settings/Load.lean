/-
CursorTree.Settings.Load — settings from a file.

Loading fails in one of three ways: there is no text to read, the text is
refused, or the settings in it have a defect.
-/
import CursorTree.File
import CursorTree.Settings.Json

namespace CursorTree

namespace Settings

/-- Why settings could not be loaded. -/
inductive LoadError where
  /-- The settings were read, but an engine cannot run with them. -/
  | invalid (defect : Defect)
  /-- The text is not settings. -/
  | refused (refusal : Json.Refusal)
  /-- There is no text. -/
  | unreadable (fault : File.Fault)

/-- The wording of an error of loading. -/
def LoadError.message : LoadError → String
  | invalid d => "invalid configuration: " ++ d.message
  | refused r => "config parse error: " ++ r.message
  | unreadable f => "io error: " ++ f.message

/-- The settings in a text, validated. -/
def ofJson (text : String) : Except LoadError Settings :=
  match parse text.toList with
  | .error r => .error (.refused r)
  | .ok s =>
    match s.validate with
    | .error d => .error (.invalid d)
    | .ok s => .ok s

/-- No text gives settings that have a defect. -/
theorem defect?_of_ofJson {text : String} {s : Settings} (h : ofJson text = .ok s) :
    s.defect? = none := by
  unfold ofJson at h
  cases hparse : parse text.toList with
  | error r => rw [hparse] at h; cases h
  | ok given =>
    rw [hparse] at h
    unfold validate at h
    cases hdefect : given.defect? with
    | some d => simp only [hdefect] at h; cases h
    | none =>
      simp only [hdefect, Except.ok.injEq] at h
      exact h ▸ hdefect

/-- The settings in what is found at a path. -/
def load (found : Except File.Fault String) : Except LoadError Settings :=
  match found with
  | .error f => .error (.unreadable f)
  | .ok text => ofJson text

end Settings

end CursorTree
