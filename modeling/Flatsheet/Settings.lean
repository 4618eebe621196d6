import Flatsheet.Text.Numeral

/-!
# `Flatsheet.Settings` — the tunables of a run

Each setting comes from the caller, else from the environment, else from its default. An empty value of
the environment counts as absent. Settings are resolved all at once: a run either gets settings that are
all well formed and in range, or the first error.

## Contents

* `Settings`, `Overrides`, `Environment`
* `SettingsError` and its message
* `Settings.resolve`, `Settings.resolveInto`
-/

namespace Flatsheet

open Text

/-- The tunables of a run. Times are in seconds. -/
structure Settings where
  themeBaseUrl : Text := "/wp-content/themes/DealerInspireDealerTheme".toList
  commonThemeUrl : Text := "/wp-content/themes/DealerInspireCommonTheme".toList
  sassBinary : Text := "sass".toList
  formatter : Text := "prettier".toList
  logContainer : Text := "dealerinspire_legacy_assets".toList
  candidatePrefix : Text := "restyle-verify-".toList
  resourceDir : Text := "/usr/local/share/restyle/resources".toList
  maxRetries : Nat := 3
  maxEscalations : Nat := 3
  compileWait : Nat := 45
  pollInterval : Nat := 3
  cleanupWait : Nat := 15
  compilerTimeout : Nat := 30
  logTailLines : Nat := 50
  maxFileSizeMb : Nat := 10
  parallelFiles : Nat := 4
  strictMode : Bool := false
deriving DecidableEq, Repr

/-- The number of bytes that a file may have. -/
def Settings.maxFileSizeBytes (s : Settings) : Nat := s.maxFileSizeMb * 1024 * 1024

/-- Settings that the caller gives. -/
structure Overrides where
  themeBaseUrl : Option Text := none
  sassBinary : Option Text := none
  formatter : Option Text := none
  logContainer : Option Text := none
  candidatePrefix : Option Text := none
  resourceDir : Option Text := none
  maxRetries : Option Int := none
  maxEscalations : Option Int := none
  compileWait : Option Int := none
  pollInterval : Option Int := none
  cleanupWait : Option Int := none
  /-- A word of 64 bits, of which the low 32 count, as a signed number. -/
  logTailLines : Option Nat := none
  maxFileSizeMb : Option Int := none
  /-- A word of 64 bits, of which the low 32 count, as a signed number. -/
  parallelFiles : Option Nat := none
  strictMode : Option Bool := none
deriving DecidableEq, Repr

/-- The values of environment variables. -/
abbrev Environment := Text → Option Text

/-- The value of an environment variable, if it is set and not empty. -/
def Environment.value? (env : Environment) (name : Text) : Option Text :=
  (env name).filter fun v => !v.isEmpty

/-! ## Errors -/

/-- Why settings cannot be resolved. -/
inductive SettingsError
  /-- The names of candidates would be the names of their targets. -/
  | emptyCandidatePrefix
  | notAnInteger (name value : Text)
  | notABoolean (name value : Text)
  /-- `source` is the environment variable, or the word for the caller. -/
  | outOfRange (name source : Text) (least greatest value : Int)
deriving DecidableEq, Repr

/-- The text of an error. -/
def SettingsError.message : SettingsError → Text
  | emptyCandidatePrefix => "candidate prefix must not be empty".toList
  | notAnInteger name value =>
    name ++ " is not an integer: '".toList ++ value ++ "'".toList
  | notABoolean name value => name ++ " is not a boolean: '".toList ++ value ++ "'".toList
  | outOfRange name source least greatest value =>
    name ++ " (".toList ++ source ++ ") must be within ".toList ++ Text.ofInt least
      ++ "..".toList ++ Text.ofInt greatest ++ ", got ".toList ++ Text.ofInt value

/-! ## Resolution -/

namespace Settings

/-- The integer of 32 bits that a text denotes. -/
def readInteger? (t : Text) : Option Int :=
  (integer? t).filter fun n => -2147483648 ≤ n && n ≤ 2147483647

/-- The truth value that a word of any case denotes. -/
def readBoolean? (t : Text) : Option Bool :=
  if ["1", "true", "yes", "on"].any (lower t = ·.toList) then some true
  else if ["0", "false", "no", "off"].any (lower t = ·.toList) then some false
  else none

/-- A text setting. The caller may give an empty text. -/
def resolveText (env : Environment) (key : String) (given : Option Text) (default : Text) :
    Text :=
  (given.or (env.value? key.toList)).getD default

/-- A number setting, which has to be within a range. -/
def resolveNumber (env : Environment) (key : String) (least greatest : Nat)
    (given : Option Int) (default : Nat) : Except SettingsError Nat :=
  let name := key.toList
  let checked (source : Text) (value : Int) : Except SettingsError Nat :=
    if value < least || greatest < value then .error (.outOfRange name source least greatest value)
    else .ok value.toNat
  match given with
  | some value => checked "override".toList value
  | none =>
    match env.value? name with
    | none => .ok default
    | some raw =>
      match readInteger? raw with
      | none => .error (.notAnInteger name raw)
      | some value => checked name value

/-- A switch. -/
def resolveFlag (env : Environment) (key : String) (given : Option Bool) (default : Bool) :
    Except SettingsError Bool :=
  match given with
  | some value => .ok value
  | none =>
    match env.value? key.toList with
    | none => .ok default
    | some raw =>
      match readBoolean? raw with
      | none => .error (.notABoolean key.toList raw)
      | some value => .ok value

/-- The low 32 bits of a number, as a signed number. -/
def lowWord (n : Nat) : Int := (n : Int).bmod 4294967296

/-- The number and switch settings, in order; the text settings stay as they are. -/
def resolveNumbers (o : Overrides) (env : Environment) (s : Settings) :
    Except SettingsError Settings := do
  let number := resolveNumber env
  let maxRetries ← number "RESTYLE_MAX_RETRIES" 0 20 o.maxRetries s.maxRetries
  let maxEscalations ← number "RESTYLE_MAX_ESCALATIONS" 0 20 o.maxEscalations s.maxEscalations
  let compileWait ← number "RESTYLE_COMPILE_WAIT_S" 1 3600 o.compileWait s.compileWait
  let pollInterval ← number "RESTYLE_POLL_INTERVAL_S" 0 600 o.pollInterval s.pollInterval
  let cleanupWait ← number "RESTYLE_CLEANUP_WAIT_S" 0 3600 o.cleanupWait s.cleanupWait
  let logTailLines ←
    number "RESTYLE_LOG_TAIL_LINES" 1 10000 (o.logTailLines.map lowWord) s.logTailLines
  let maxFileSizeMb ← number "RESTYLE_MAX_FILE_SIZE_MB" 1 100 o.maxFileSizeMb s.maxFileSizeMb
  let parallelFiles ←
    number "RESTYLE_PARALLEL_FILES" 1 64 (o.parallelFiles.map lowWord) s.parallelFiles
  let strictMode ← resolveFlag env "RESTYLE_STRICT" o.strictMode s.strictMode
  return { s with
    maxRetries, maxEscalations, compileWait, pollInterval, cleanupWait, logTailLines,
    maxFileSizeMb, parallelFiles, strictMode }

/-- The settings of a run. An empty candidate prefix is reported before any other error. -/
def resolve (o : Overrides) (env : Environment) : Except SettingsError Settings :=
  let d : Settings := {}
  let s : Settings := { d with
    themeBaseUrl := resolveText env "RESTYLE_THEME_BASE_URL" o.themeBaseUrl d.themeBaseUrl
    sassBinary := resolveText env "RESTYLE_SASS_BINARY" o.sassBinary d.sassBinary
    formatter := resolveText env "RESTYLE_FORMATTER" o.formatter d.formatter
    logContainer := resolveText env "RESTYLE_LOG_CONTAINER" o.logContainer d.logContainer
    candidatePrefix := resolveText env "RESTYLE_CANDIDATE_PREFIX" o.candidatePrefix d.candidatePrefix
    resourceDir := resolveText env "RESTYLE_RESOURCE_DIR" o.resourceDir d.resourceDir }
  if s.candidatePrefix.isEmpty then .error .emptyCandidatePrefix else resolveNumbers o env s

/-- Resolves settings in the place of others, with the error if there is one. -/
def resolveInto (out : Settings) (o : Overrides) (env : Environment) : Option SettingsError × Settings :=
  match resolve o env with
  | .error e => (some e, out)
  | .ok s => (none, s)

end Settings

end Flatsheet
