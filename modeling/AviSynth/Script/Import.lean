import AviSynth.Library.Programs
import Mathlib.Tactic.Common
import Mathlib.Data.Int.Notation

/-!
# Importing scripts

`Import` evaluates script files one after the other. While a file is evaluated,
six global variables tell where it lies, and its directory is the working
directory. A script is a program: it imports further files, changes the working
directory, looks at the variables, and may catch the exceptions of all that.
-/

namespace AviSynth

/-- The values of `$ScriptName$`, `$ScriptFile$`, `$ScriptDir$` and of their UTF-8
forms; a variable that is not set is `none`. -/
structure ScriptLocation where
  scriptName : Option String
  scriptFile : Option String
  scriptDir : Option String
  scriptNameUtf8 : Option String
  scriptFileUtf8 : Option String
  scriptDirUtf8 : Option String
  deriving DecidableEq, Repr

/-- A file that `Import` has found and opened. `saved` says whether the old working
directory could be asked for, `entered` is the new one if the change succeeded,
and `text` is missing if the file cannot be read or starts with a byte order mark. -/
structure OpenedFile where
  location : ScriptLocation
  saved : Bool
  entered : Option String
  text : Option String
  deriving DecidableEq, Repr

/-- What a script asks for. -/
inductive ScriptRequest
  | importFiles (names : List String)
  | setWorkingDir (dir : String)
  | scriptLocation

/-- What a script is told. -/
inductive ScriptAnswer
  | done (outcome : Outcome)
  | location (value : ScriptLocation)

abbrev Script := Program ScriptRequest ScriptAnswer Outcome

/-- One evaluated file of an import: whether its `CWDChanger` puts the working
directory back, and the directory at the end of the evaluation. -/
structure FileRecord where
  restore : Bool
  left : String
  deriving DecidableEq, Repr

/-- What an import is to leave as it was. -/
structure ImportPoint where
  location : ScriptLocation
  importDepth : ℤ
  cwd : String
  deriving DecidableEq, Repr

/-- An import that has ended. -/
structure ImportRecord where
  before : ImportPoint
  outcome : Outcome
  files : List FileRecord
  after : ImportPoint
  deriving DecidableEq, Repr

/-- The thread that evaluates scripts: the script variables, those of the main
script, the import depth, the working directory, the number of files opened so
far, and the imports that have ended. -/
structure ImportState where
  location : ScriptLocation
  mainLocation : ScriptLocation
  importDepth : ℤ
  cwd : String
  opened : ℕ
  history : List ImportRecord
  deriving DecidableEq, Repr

namespace ImportState

def point (s : ImportState) : ImportPoint := ⟨s.location, s.importDepth, s.cwd⟩

/-- The global variables for a file that has been opened. -/
def setLocation (s : ImportState) (mainScript : Bool) (location : ScriptLocation) : ImportState :=
  { s with
    location := location
    mainLocation := if mainScript then location else s.mainLocation }

end ImportState

/-- The file system and the parser: what opening the given file finds, depending on
the working directory and on the files opened before; how a change of the working
directory from a script ends; and the script that a text stands for. -/
structure ScriptWorld where
  openFile : ℕ → String → String → Option OpenedFile
  enter : ℕ → String → String → Option String
  parse : String → Option Script

namespace ScriptWorld

variable (world : ScriptWorld)

/-- The body of the loop of `Import` for one file. -/
def importFile (evaluate : String → ImportState → Option (Outcome × ImportState))
    (mainScript : Bool) (name : String) (s : ImportState) :
    Option ((Outcome × List FileRecord) × ImportState) :=
  let file := world.openFile s.opened s.cwd name
  let s := { s with opened := s.opened + 1 }
  match file with
  | none => some ((.thrown, []), s)
  | some file =>
    let oldWorkingDirectory := s.cwd
    let restore := file.saved && file.entered.isSome
    let s := s.setLocation mainScript file.location
    let s := { s with cwd := file.entered.getD s.cwd }
    let result : Option (Outcome × ImportState) := match file.text with
      | none => some (.thrown, s)
      | some text => evaluate text s
    result.map fun (outcome, s) =>
      ((outcome, [⟨restore, s.cwd⟩]),
        { s with cwd := if restore then oldWorkingDirectory else s.cwd })

/-- The loop of `Import`. -/
def importLoop (evaluate : String → ImportState → Option (Outcome × ImportState))
    (mainScript : Bool) :
    List String → ImportState → Option ((Outcome × List FileRecord) × ImportState)
  | [], s => some ((.returned, []), s)
  | name :: names, s =>
    (world.importFile evaluate mainScript name s).bind fun
      | ((.thrown, files), s) => some ((.thrown, files), s)
      | ((.returned, files), s) =>
        (importLoop evaluate mainScript names s).map fun ((outcome, more), s) =>
          ((outcome, files ++ more), s)

/-- `Import`, with the evaluation of script texts as a parameter. -/
def importFiles (evaluate : String → ImportState → Option (Outcome × ImportState))
    (names : List String) (s : ImportState) : Option (Outcome × ImportState) :=
  let before := s.point
  let s := { s with importDepth := s.importDepth + 1 }
  let mainScript := s.importDepth == 1
  (world.importLoop evaluate mainScript names s).map fun
    | ((.thrown, files), s) =>
      (.thrown, { s with history := s.history ++ [⟨before, .thrown, files, s.point⟩] })
    | ((.returned, files), s) =>
      let s := { s with location := before.location, importDepth := s.importDepth - 1 }
      (.returned, { s with history := s.history ++ [⟨before, .returned, files, s.point⟩] })

/-- The answers to a script, with imports at most `fuel` deep. -/
def answer (world : ScriptWorld) :
    ℕ → ScriptRequest → ImportState → Option (ScriptAnswer × ImportState)
  | _, .scriptLocation, s => some (.location s.location, s)
  | _, .setWorkingDir dir, s =>
    some (.done .returned, { s with cwd := (world.enter s.opened s.cwd dir).getD s.cwd })
  | 0, .importFiles _, _ => none
  | fuel + 1, .importFiles names, s =>
    (world.importFiles (fun text s =>
      match world.parse text with
      | none => some (.thrown, s)
      | some script => script.eval (answer world fuel) s) names s).map fun (outcome, s) =>
        (.done outcome, s)

/-- `Eval` of a text: a parse error is an exception. -/
def evaluate (fuel : ℕ) (text : String) (s : ImportState) : Option (Outcome × ImportState) :=
  match world.parse text with
  | none => some (.thrown, s)
  | some script => script.eval (world.answer fuel) s

theorem answer_import (fuel : ℕ) (names : List String) (s : ImportState) :
    world.answer (fuel + 1) (.importFiles names) s =
      (world.importFiles (world.evaluate fuel) names s).map fun (outcome, s) =>
        (.done outcome, s) := rfl

end ScriptWorld

/-!
## What an import leaves behind

`Import` sets the script variables, the import depth and the working directory by
hand. It puts the variables and the depth back on its normal path only; the
working directory is put back by a destructor, if it could be saved and changed.
-/

/-- The directory in which the files leave an import that has found `cwd`: that of
the last file whose destructor does not put it back. -/
def lastLeft (files : List FileRecord) (cwd : String) : String :=
  match (files.filter fun f => !f.restore).getLast? with
  | none => cwd
  | some f => f.left

theorem lastLeft_append (files more : List FileRecord) (cwd : String) :
    lastLeft (files ++ more) cwd = lastLeft more (lastLeft files cwd) := by
  unfold lastLeft
  rw [List.filter_append, List.getLast?_append]
  cases (more.filter fun f => !f.restore).getLast? with
  | none => simp
  | some f => simp

namespace ImportRecord

/-- The import has left everything as it was. -/
def Restored (r : ImportRecord) : Prop := r.after = r.before
  deriving Decidable

/-- The import has returned, and the last file whose working directory is not put
back by a destructor, if there is one, has left the directory of the import. -/
def Calm (r : ImportRecord) : Prop :=
  r.outcome = .returned ∧ lastLeft r.files r.before.cwd = r.before.cwd
  deriving Decidable

end ImportRecord

/-- What a piece of work adds to the history of imports. The depth stays the same
if they all have returned, and they all have restored everything just when they
all were calm. -/
def ImportsAccounted (s t : ImportState) : Prop :=
  ∃ imports, t.history = s.history ++ imports ∧
    ((∀ r ∈ imports, r.outcome = .returned) → t.importDepth = s.importDepth) ∧
    ((∀ r ∈ imports, r.Restored) ↔ ∀ r ∈ imports, r.Calm)

namespace ImportsAccounted

/-- Work that does not touch the depth and ends no import. -/
theorem of_eq {s t : ImportState} (hhistory : t.history = s.history)
    (hdepth : t.importDepth = s.importDepth) : ImportsAccounted s t := by
  use []
  simp [hhistory, hdepth]

theorem refl (s : ImportState) : ImportsAccounted s s := of_eq rfl rfl

theorem trans {s t u : ImportState} (hst : ImportsAccounted s t) (htu : ImportsAccounted t u) :
    ImportsAccounted s u := by
  obtain ⟨first, hfirst, hdepth, hiff⟩ := hst
  obtain ⟨second, hsecond, hdepth', hiff'⟩ := htu
  use first ++ second
  simp only [List.forall_mem_append]
  constructor
  · rw [hsecond, hfirst, List.append_assoc]
  constructor
  · rintro ⟨h, h'⟩
    rw [hdepth' h', hdepth h]
  · rw [hiff, hiff']

/-- An import around accounted work. It restores nothing when it throws, for the
depth is then too large; else it restores all but the working directory. -/
theorem record {s inner t : ImportState} {r : ImportRecord}
    (hinner : ImportsAccounted { s with importDepth := s.importDepth + 1 } inner)
    (hhistory : t.history = inner.history ++ [r]) (hbefore : r.before = s.point)
    (hafter : r.after = t.point)
    (hreturned : r.outcome = .returned →
      t.importDepth = inner.importDepth - 1 ∧ t.location = s.location)
    (hthrown : r.outcome = .thrown → t.importDepth = inner.importDepth)
    (hcwd : t.cwd = lastLeft r.files s.cwd) : ImportsAccounted s t := by
  obtain ⟨imports, himports, hsame, hiff⟩ := hinner
  have hr (h : ∀ i ∈ imports, i.Calm) : r.Restored ↔ r.Calm := by
    have hdepth : inner.importDepth = s.importDepth + 1 := hsame fun i hi => (h i hi).1
    rw [ImportRecord.Restored, ImportRecord.Calm, hafter, hbefore]
    simp only [ImportState.point, ImportPoint.mk.injEq, ← hcwd]
    cases hout : r.outcome with
    | returned =>
      obtain ⟨hback, hlocation⟩ := hreturned hout
      simp [hback, hlocation, hdepth]
    | thrown =>
      have hdeeper : t.importDepth ≠ s.importDepth := by
        rw [hthrown hout, hdepth]
        omega
      simp [hdeeper]
  use imports ++ [r]
  simp only [List.forall_mem_append, List.forall_mem_singleton]
  constructor
  · rw [hhistory, himports, List.append_assoc]
  constructor
  · rintro ⟨h, hout⟩
    rw [(hreturned hout).1, hsame h]
    simp
  · rw [hiff]
    constructor
    · rintro ⟨h, hrestored⟩
      exact ⟨h, (hr h).mp hrestored⟩
    · rintro ⟨h, hcalm⟩
      exact ⟨h, (hr h).mpr hcalm⟩

end ImportsAccounted

namespace ScriptWorld

variable {world : ScriptWorld}
  {evaluate : String → ImportState → Option (Outcome × ImportState)}

section

variable (hevaluate : ∀ text s result, evaluate text s = some result → ImportsAccounted s result.2)
include hevaluate

variable {result : (Outcome × List FileRecord) × ImportState} {s : ImportState}

/-- One file of an import, from the evaluation of its text. -/
theorem importFile_accounted {mainScript : Bool} {name : String}
    (h : world.importFile evaluate mainScript name s = some result) :
    ImportsAccounted s result.2 ∧ result.2.cwd = lastLeft result.1.2 s.cwd := by
  unfold importFile at h
  cases hopen : world.openFile s.opened s.cwd name with
  | none =>
    simp only [hopen, Option.some.injEq] at h
    subst h
    exact ⟨ImportsAccounted.of_eq rfl rfl, rfl⟩
  | some file =>
    simp only [hopen] at h
    obtain ⟨⟨outcome, t⟩, hresult, rfl⟩ := Option.map_eq_some_iff.mp h
    constructor
    · have hwork : ImportsAccounted s t := by
        cases htext : file.text with
        | none =>
          simp only [htext, Option.some.injEq, Prod.mk.injEq] at hresult
          rw [← hresult.2]
          exact ImportsAccounted.of_eq rfl rfl
        | some text =>
          simp only [htext] at hresult
          exact (ImportsAccounted.of_eq rfl rfl).trans (hevaluate _ _ _ hresult)
      exact hwork.trans (ImportsAccounted.of_eq rfl rfl)
    · simp only [lastLeft]
      split_ifs with hrestore
      · simp [hrestore]
      · simp [hrestore]

/-- The loop over the files: the working directory is back if that of each file is. -/
theorem importLoop_accounted {mainScript : Bool} {names : List String}
    (h : world.importLoop evaluate mainScript names s = some result) :
    ImportsAccounted s result.2 ∧ result.2.cwd = lastLeft result.1.2 s.cwd := by
  induction names generalizing s result with
  | nil =>
    simp only [importLoop, Option.some.injEq] at h
    subst h
    exact ⟨ImportsAccounted.refl s, rfl⟩
  | cons name names ih =>
    obtain ⟨⟨⟨outcome, files⟩, t⟩, hfile, hrest⟩ := Option.bind_eq_some_iff.mp h
    obtain ⟨hwork, hcwd⟩ := importFile_accounted hevaluate hfile
    cases outcome with
    | thrown =>
      simp only [Option.some.injEq] at hrest
      subst hrest
      exact ⟨hwork, hcwd⟩
    | returned =>
      obtain ⟨⟨⟨outcome, more⟩, u⟩, hloop, rfl⟩ := Option.map_eq_some_iff.mp hrest
      obtain ⟨hwork', hcwd'⟩ := ih hloop
      constructor
      · exact hwork.trans hwork'
      · rw [hcwd', hcwd, ← lastLeft_append]

/-- A whole import. -/
theorem importFiles_accounted
    {names : List String} {result : Outcome × ImportState}
    (h : world.importFiles evaluate names s = some result) : ImportsAccounted s result.2 := by
  obtain ⟨⟨⟨outcome, files⟩, t⟩, hloop, rfl⟩ := Option.map_eq_some_iff.mp h
  obtain ⟨hwork, hcwd⟩ := importLoop_accounted hevaluate hloop
  cases outcome with
  | thrown =>
    apply hwork.record rfl rfl rfl _ _ hcwd
    · intro hr
      cases hr
    · intro _
      rfl
  | returned =>
    apply hwork.record rfl rfl rfl _ _ hcwd
    · intro _
      exact ⟨rfl, rfl⟩
    · intro hr
      cases hr

end

/-- The answers to a script are accounted for, however deep it imports. -/
theorem answer_accounted (fuel : ℕ) (request : ScriptRequest) (s : ImportState)
    (result : ScriptAnswer × ImportState) (h : world.answer fuel request s = some result) :
    ImportsAccounted s result.2 := by
  induction fuel generalizing request s result with
  | zero =>
    cases request with
    | importFiles names => simp [answer] at h
    | setWorkingDir dir =>
      simp only [answer, Option.some.injEq] at h
      subst h
      exact ImportsAccounted.of_eq rfl rfl
    | scriptLocation =>
      simp only [answer, Option.some.injEq] at h
      subst h
      exact ImportsAccounted.refl s
  | succ fuel ih =>
    cases request with
    | importFiles names =>
      rw [answer_import] at h
      obtain ⟨⟨outcome, t⟩, himport, rfl⟩ := Option.map_eq_some_iff.mp h
      apply importFiles_accounted _ himport
      intro text s result hresult
      unfold evaluate at hresult
      cases hparse : world.parse text with
      | none =>
        simp only [hparse, Option.some.injEq] at hresult
        subst hresult
        exact ImportsAccounted.refl s
      | some script =>
        simp only [hparse] at hresult
        exact Program.eval_respects ImportsAccounted.refl (fun _ _ _ => ImportsAccounted.trans) ih
          hresult
    | setWorkingDir dir =>
      simp only [answer, Option.some.injEq] at h
      subst h
      exact ImportsAccounted.of_eq rfl rfl
    | scriptLocation =>
      simp only [answer, Option.some.injEq] at h
      subst h
      exact ImportsAccounted.refl s

/-- The imports of a script, also the nested ones, all leave everything as it was
exactly when all of them return and leave the working directory. -/
theorem imports_restore_iff {fuel : ℕ} {script : Script} {s : ImportState}
    {result : Outcome × ImportState} (h : script.eval (world.answer fuel) s = some result) :
    ∃ imports, result.2.history = s.history ++ imports ∧
      ((∀ r ∈ imports, r.Restored) ↔ ∀ r ∈ imports, r.Calm) := by
  obtain ⟨imports, hhistory, -, hiff⟩ := Program.eval_respects ImportsAccounted.refl
    (fun _ _ _ => ImportsAccounted.trans) (answer_accounted fuel) h
  exact ⟨imports, hhistory, hiff⟩

/-- Two files lie in the directory "scripts"; the second one changes the working
directory. -/
def twoFiles : ScriptWorld where
  openFile _ _ name :=
    if name = "first.avs" ∨ name = "second.avs" then
      some {
        location := ⟨name, name, "scripts", name, name, "scripts"⟩
        saved := true
        entered := "scripts"
        text := name }
    else none
  enter _ _ dir := some dir
  parse text :=
    if text = "first.avs" then
      some (.request (.importFiles ["second.avs"]) fun _ => .finish .returned)
    else some (.request (.setWorkingDir "elsewhere") fun _ => .finish .returned)

/-- A script in the directory "home" before its first import. -/
def startOfScript : ImportState where
  location := ⟨none, none, none, none, none, none⟩
  mainLocation := ⟨none, none, none, none, none, none⟩
  importDepth := 0
  cwd := "home"
  opened := 0
  history := []

/-- A script that imports the given files and goes on after an exception. -/
def importing (names : List String) : Script :=
  .request (.importFiles names) fun _ => .finish .returned

/-- The theorem on a nested import. -/
theorem imports_restore_nested :
    ∃ result, (importing ["first.avs"]).eval (twoFiles.answer 2) startOfScript = some result ∧
      ∃ imports, result.2.history = startOfScript.history ++ imports ∧
        ((∀ r ∈ imports, r.Restored) ↔ ∀ r ∈ imports, r.Calm) := by
  have hends : ((importing ["first.avs"]).eval (twoFiles.answer 2) startOfScript).isSome := by
    decide
  obtain ⟨result, hresult⟩ := Option.isSome_iff_exists.mp hends
  exact ⟨result, hresult, imports_restore_iff hresult⟩

/-- The import of a missing file leaves the import depth too large; the script goes
on with it. -/
theorem import_missing_deepens :
    ∃ result, (importing ["missing.avs"]).eval (twoFiles.answer 2) startOfScript = some result ∧
      ¬∀ r ∈ result.2.history, r.Restored :=
  ⟨_, rfl, by decide⟩

end ScriptWorld

end AviSynth
