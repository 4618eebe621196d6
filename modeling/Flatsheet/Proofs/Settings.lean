import Flatsheet.Settings
import Mathlib.Tactic.Choose
import Mathlib.Tactic.MkIffOfInductiveProp

/-!
# `Proofs.Settings` — which settings a run gets

A setting comes to an **effective value**: what the caller gives, else what the environment has, else its default.
This file says so for all settings of a kind at once (`TextSetting`, `NumberSetting`, and the one switch), and shows
that resolution succeeds just when the effective values are well formed and in range, and then gives just these.

What a number comes to depends on how the caller's value reaches the resolution. Two of the numbers come in words of 64
bits of which only the low half is looked at, so there are two readings: `NumberSetting.given` is the number that the
caller gives, and `NumberSetting.received` is the number that is looked at. Resolution is exact in the second reading,
and in the first one as long as the caller's words have 32 bits (`resolveInto_exact`).
-/

namespace Flatsheet.Settings

open Text

/-! ## The settings -/

/-- The settings that are texts. -/
inductive TextSetting
  | themeBaseUrl
  | sassBinary
  | formatter
  | logContainer
  | candidatePrefix
  | resourceDir
deriving DecidableEq, Repr

/-- The settings that are numbers. -/
inductive NumberSetting
  | maxRetries
  | maxEscalations
  | compileWait
  | pollInterval
  | cleanupWait
  | logTailLines
  | maxFileSizeMb
  | parallelFiles
deriving DecidableEq, Repr

namespace TextSetting

/-- The environment variable of a setting. -/
def key : TextSetting → String
  | themeBaseUrl => "RESTYLE_THEME_BASE_URL"
  | sassBinary => "RESTYLE_SASS_BINARY"
  | formatter => "RESTYLE_FORMATTER"
  | logContainer => "RESTYLE_LOG_CONTAINER"
  | candidatePrefix => "RESTYLE_CANDIDATE_PREFIX"
  | resourceDir => "RESTYLE_RESOURCE_DIR"

/-- What the caller gives. -/
def given (o : Overrides) : TextSetting → Option Text
  | themeBaseUrl => o.themeBaseUrl
  | sassBinary => o.sassBinary
  | formatter => o.formatter
  | logContainer => o.logContainer
  | candidatePrefix => o.candidatePrefix
  | resourceDir => o.resourceDir

/-- What settings have. -/
def value (s : Settings) : TextSetting → Text
  | themeBaseUrl => s.themeBaseUrl
  | sassBinary => s.sassBinary
  | formatter => s.formatter
  | logContainer => s.logContainer
  | candidatePrefix => s.candidatePrefix
  | resourceDir => s.resourceDir

/-- What a setting comes to. -/
def effective (o : Overrides) (env : Environment) (t : TextSetting) : Text :=
  match t.given o, env.value? t.key.toList with
  | some text, _ => text
  | none, some text => text
  | none, none => t.value {}

theorem resolveText_eq (o : Overrides) (env : Environment) (t : TextSetting) :
    resolveText env t.key (t.given o) (t.value {}) = t.effective o env := by
  unfold resolveText effective
  cases t.given o with
  | some text => rfl
  | none =>
    cases env.value? t.key.toList with
    | some text => rfl
    | none => rfl

end TextSetting

namespace NumberSetting

/-- The environment variable of a setting. -/
def key : NumberSetting → String
  | maxRetries => "RESTYLE_MAX_RETRIES"
  | maxEscalations => "RESTYLE_MAX_ESCALATIONS"
  | compileWait => "RESTYLE_COMPILE_WAIT_S"
  | pollInterval => "RESTYLE_POLL_INTERVAL_S"
  | cleanupWait => "RESTYLE_CLEANUP_WAIT_S"
  | logTailLines => "RESTYLE_LOG_TAIL_LINES"
  | maxFileSizeMb => "RESTYLE_MAX_FILE_SIZE_MB"
  | parallelFiles => "RESTYLE_PARALLEL_FILES"

def least : NumberSetting → Nat
  | maxRetries => 0
  | maxEscalations => 0
  | compileWait => 1
  | pollInterval => 0
  | cleanupWait => 0
  | logTailLines => 1
  | maxFileSizeMb => 1
  | parallelFiles => 1

def greatest : NumberSetting → Nat
  | maxRetries => 20
  | maxEscalations => 20
  | compileWait => 3600
  | pollInterval => 600
  | cleanupWait => 3600
  | logTailLines => 10000
  | maxFileSizeMb => 100
  | parallelFiles => 64

/-- What the caller gives. -/
def given (o : Overrides) : NumberSetting → Option Int
  | maxRetries => o.maxRetries
  | maxEscalations => o.maxEscalations
  | compileWait => o.compileWait
  | pollInterval => o.pollInterval
  | cleanupWait => o.cleanupWait
  | logTailLines => o.logTailLines.map Int.ofNat
  | maxFileSizeMb => o.maxFileSizeMb
  | parallelFiles => o.parallelFiles.map Int.ofNat

/-- What is looked at of it: of the two words of 64 bits, the low half. -/
def received (o : Overrides) : NumberSetting → Option Int
  | logTailLines => o.logTailLines.map lowWord
  | parallelFiles => o.parallelFiles.map lowWord
  | q => q.given o

/-- What settings have. -/
def value (s : Settings) : NumberSetting → Nat
  | maxRetries => s.maxRetries
  | maxEscalations => s.maxEscalations
  | compileWait => s.compileWait
  | pollInterval => s.pollInterval
  | cleanupWait => s.cleanupWait
  | logTailLines => s.logTailLines
  | maxFileSizeMb => s.maxFileSizeMb
  | parallelFiles => s.parallelFiles

/-- What a setting comes to. There is no such number if the environment has something else. -/
def effective? (env : Environment) (given : Option Int) (q : NumberSetting) : Option Int :=
  match given, env.value? q.key.toList with
  | some n, _ => some n
  | none, some raw => integer? raw
  | none, none => some (q.value {})

@[simp] theorem effective?_some (env : Environment) (n : Int) (q : NumberSetting) :
    q.effective? env (some n) = some n := by
  unfold effective?
  cases env.value? q.key.toList <;> rfl

/-- A setting comes to a number that it may have. -/
@[mk_iff]
structure Comes (env : Environment) (given : Option Int) (q : NumberSetting) (n : Int) : Prop where
  effective : q.effective? env given = some n
  least : q.least ≤ n
  greatest : n ≤ q.greatest

/-- Every default may be had. -/
theorem default_inRange (q : NumberSetting) : q.least ≤ q.value {} ∧ q.value {} ≤ q.greatest := by
  cases q <;> decide

/-- Ranges lie within the integers that can be read. -/
theorem greatest_le (q : NumberSetting) : q.greatest ≤ 2147483647 := by
  cases q <;> decide

/-- The resolution of one number. -/
def resolve (env : Environment) (given : Option Int) (q : NumberSetting) : Except SettingsError Nat :=
  resolveNumber env q.key q.least q.greatest given (q.value {})

end NumberSetting

/-- What the switch comes to. -/
def effectiveFlag? (o : Overrides) (env : Environment) : Option Bool :=
  match o.strictMode, env.value? "RESTYLE_STRICT".toList with
  | some b, _ => some b
  | none, some raw => readBoolean? raw
  | none, none => some false

/-! ## One setting -/

variable {o : Overrides} {env : Environment} {given : Option Int} {q : NumberSetting}

theorem check_ok_iff {name source : Text} {v : Int} {n : Nat} :
    (if v < (q.least : Int) || (q.greatest : Int) < v then
        .error (.outOfRange name source q.least q.greatest v)
      else .ok v.toNat : Except SettingsError Nat) = .ok n ↔
      some v = some (n : Int) ∧ (q.least : Int) ≤ n ∧ (n : Int) ≤ q.greatest := by
  rw [Option.some.injEq]
  split
  · next hout =>
    simp only [Bool.or_eq_true, decide_eq_true_eq] at hout
    simp only [reduceCtorEq, false_iff]
    rintro ⟨rfl, hleast, hgreatest⟩
    omega
  · next hin =>
    simp only [Bool.or_eq_true, decide_eq_true_eq, not_or, Int.not_lt] at hin
    rw [Except.ok.injEq]
    omega

theorem readInteger?_eq_some {t : Text} {v : Int} :
    readInteger? t = some v ↔ integer? t = some v ∧ -2147483648 ≤ v ∧ v ≤ 2147483647 := by
  simp [readInteger?, Option.filter_eq_some_iff]

/-- **A number is resolved just when it comes to one that it may have**, and then to this. -/
theorem NumberSetting.resolve_ok_iff {n : Nat} : q.resolve env given = .ok n ↔ q.Comes env given n := by
  rw [NumberSetting.comes_iff]
  unfold NumberSetting.resolve resolveNumber NumberSetting.effective?
  dsimp only
  cases given with
  | some v => exact check_ok_iff
  | none =>
    cases env.value? q.key.toList with
    | none =>
      have hdefault := q.default_inRange
      simp only [Except.ok.injEq, Option.some.injEq]
      omega
    | some raw =>
      dsimp only
      cases hread : readInteger? raw with
      | some v =>
        rw [(readInteger?_eq_some.1 hread).1]
        exact check_ok_iff
      | none =>
        -- an integer that cannot be read is in no range
        have hfits := q.greatest_le
        simp only [reduceCtorEq, false_iff]
        rintro ⟨hraw, hleast, hgreatest⟩
        have hsome := readInteger?_eq_some.2 ⟨hraw, by omega, by omega⟩
        rw [hread] at hsome
        cases hsome

theorem resolveFlag_ok_iff {b : Bool} :
    resolveFlag env "RESTYLE_STRICT" o.strictMode false = .ok b ↔ effectiveFlag? o env = some b := by
  unfold resolveFlag effectiveFlag?
  cases o.strictMode with
  | some v => simp
  | none =>
    cases env.value? "RESTYLE_STRICT".toList with
    | none => simp
    | some raw =>
      dsimp only
      cases readBoolean? raw with
      | none => simp
      | some v => simp

/-! ## All settings -/

/-- Settings of given values. Nothing else is resolved. -/
def assembled (texts : TextSetting → Text) (numbers : NumberSetting → Nat) (strictMode : Bool) : Settings where
  themeBaseUrl := texts .themeBaseUrl
  sassBinary := texts .sassBinary
  formatter := texts .formatter
  logContainer := texts .logContainer
  candidatePrefix := texts .candidatePrefix
  resourceDir := texts .resourceDir
  maxRetries := numbers .maxRetries
  maxEscalations := numbers .maxEscalations
  compileWait := numbers .compileWait
  pollInterval := numbers .pollInterval
  cleanupWait := numbers .cleanupWait
  logTailLines := numbers .logTailLines
  maxFileSizeMb := numbers .maxFileSizeMb
  parallelFiles := numbers .parallelFiles
  strictMode := strictMode

@[simp] theorem TextSetting.value_assembled (t : TextSetting) (texts : TextSetting → Text)
    (numbers : NumberSetting → Nat) (strictMode : Bool) : t.value (assembled texts numbers strictMode) = texts t := by
  cases t <;> rfl

@[simp] theorem NumberSetting.value_assembled (q : NumberSetting) (texts : TextSetting → Text)
    (numbers : NumberSetting → Nat) (strictMode : Bool) :
    q.value (assembled texts numbers strictMode) = numbers q := by
  cases q <;> rfl

theorem bind_ok_iff {α β ε : Type} {x : Except ε α} {f : α → Except ε β} {b : β} :
    x >>= f = .ok b ↔ ∃ a, x = .ok a ∧ f a = .ok b := by
  cases x with
  | error e => simp [bind, Except.bind]
  | ok a => simp [bind, Except.bind]

/-- The numbers and the switch are resolved one after the other, and the texts stay. -/
theorem resolveNumbers_ok_iff {texts : TextSetting → Text} {s : Settings} :
    resolveNumbers o env (assembled texts (NumberSetting.value {}) false) = .ok s ↔
      ∃ numbers strictMode, (∀ q : NumberSetting, q.resolve env (q.received o) = .ok (numbers q)) ∧
        resolveFlag env "RESTYLE_STRICT" o.strictMode false = .ok strictMode ∧
        s = assembled texts numbers strictMode := by
  constructor
  · intro h
    obtain ⟨maxRetries, hmaxRetries, h⟩ := bind_ok_iff.1 h
    obtain ⟨maxEscalations, hmaxEscalations, h⟩ := bind_ok_iff.1 h
    obtain ⟨compileWait, hcompileWait, h⟩ := bind_ok_iff.1 h
    obtain ⟨pollInterval, hpollInterval, h⟩ := bind_ok_iff.1 h
    obtain ⟨cleanupWait, hcleanupWait, h⟩ := bind_ok_iff.1 h
    obtain ⟨logTailLines, hlogTailLines, h⟩ := bind_ok_iff.1 h
    obtain ⟨maxFileSizeMb, hmaxFileSizeMb, h⟩ := bind_ok_iff.1 h
    obtain ⟨parallelFiles, hparallelFiles, h⟩ := bind_ok_iff.1 h
    obtain ⟨strictMode, hstrictMode, h⟩ := bind_ok_iff.1 h
    cases h
    -- what the single steps have given, by the setting
    let numbers : NumberSetting → Nat
      | .maxRetries => maxRetries
      | .maxEscalations => maxEscalations
      | .compileWait => compileWait
      | .pollInterval => pollInterval
      | .cleanupWait => cleanupWait
      | .logTailLines => logTailLines
      | .maxFileSizeMb => maxFileSizeMb
      | .parallelFiles => parallelFiles
    refine ⟨numbers, strictMode, ?_, hstrictMode, rfl⟩
    intro q
    cases q <;> assumption
  · rintro ⟨numbers, strictMode, hnumbers, hflag, rfl⟩
    refine bind_ok_iff.2 ⟨_, hnumbers .maxRetries, ?_⟩
    refine bind_ok_iff.2 ⟨_, hnumbers .maxEscalations, ?_⟩
    refine bind_ok_iff.2 ⟨_, hnumbers .compileWait, ?_⟩
    refine bind_ok_iff.2 ⟨_, hnumbers .pollInterval, ?_⟩
    refine bind_ok_iff.2 ⟨_, hnumbers .cleanupWait, ?_⟩
    refine bind_ok_iff.2 ⟨_, hnumbers .logTailLines, ?_⟩
    refine bind_ok_iff.2 ⟨_, hnumbers .maxFileSizeMb, ?_⟩
    refine bind_ok_iff.2 ⟨_, hnumbers .parallelFiles, ?_⟩
    exact bind_ok_iff.2 ⟨_, hflag, rfl⟩

/-- The settings asked for can be had. -/
structure Acceptable (given : NumberSetting → Option Int) (o : Overrides) (env : Environment) : Prop where
  candidatePrefix : TextSetting.candidatePrefix.effective o env ≠ []
  numbers : ∀ q : NumberSetting, ∃ n, q.Comes env (given q) n
  flag : (effectiveFlag? o env).isSome = true

/-- The settings are those asked for. -/
structure AskedFor (given : NumberSetting → Option Int) (o : Overrides) (env : Environment) (s : Settings) :
    Prop where
  texts : ∀ t : TextSetting, t.value s = t.effective o env
  numbers : ∀ q : NumberSetting, q.Comes env (given q) (q.value s)
  flag : effectiveFlag? o env = some s.strictMode
  commonThemeUrl : s.commonThemeUrl = ({} : Settings).commonThemeUrl
  compilerTimeout : s.compilerTimeout = ({} : Settings).compilerTimeout

/-- **Resolution succeeds just with the settings asked for**, unless candidates would have the names of targets. -/
theorem resolve_ok_iff {s : Settings} :
    resolve o env = .ok s ↔
      TextSetting.candidatePrefix.effective o env ≠ [] ∧ AskedFor (NumberSetting.received o) o env s := by
  -- the texts are resolved first, and that cannot fail
  have htexts : resolve o env =
      if (TextSetting.candidatePrefix.effective o env).isEmpty then .error .emptyCandidatePrefix
      else resolveNumbers o env (assembled (TextSetting.effective o env) (NumberSetting.value {}) false) := by
    have heffective : TextSetting.effective o env = fun t => resolveText env t.key (t.given o) (t.value {}) := by
      funext t
      rw [t.resolveText_eq]
    rw [heffective]
    rfl
  rw [htexts]
  by_cases hempty : TextSetting.candidatePrefix.effective o env = []
  · simp [hempty]
  · rw [if_neg (by simpa using hempty), resolveNumbers_ok_iff]
    constructor
    · rintro ⟨numbers, strictMode, hnumbers, hflag, rfl⟩
      refine ⟨hempty, ⟨?_, ?_, resolveFlag_ok_iff.1 hflag, rfl, rfl⟩⟩
      · intro t
        rw [TextSetting.value_assembled]
      · intro q
        rw [NumberSetting.value_assembled]
        exact NumberSetting.resolve_ok_iff.1 (hnumbers q)
    · rintro ⟨-, hs⟩
      refine ⟨(NumberSetting.value s ·), s.strictMode, ?_, resolveFlag_ok_iff.2 hs.flag, ?_⟩
      · intro q
        exact NumberSetting.resolve_ok_iff.2 (hs.numbers q)
      · -- the settings are made of their values, and of two fields that nothing changes
        have htexts : (TextSetting.effective o env) = (TextSetting.value s) := by
          funext t
          exact (hs.texts t).symm
        obtain ⟨-, -, -, hcommon, htimeout⟩ := hs
        rw [htexts]
        cases s
        simp only at hcommon htimeout
        subst hcommon htimeout
        rfl

/-- What can be had is had. -/
theorem Acceptable.exists_askedFor {given : NumberSetting → Option Int} (h : Acceptable given o env) :
    ∃ s, AskedFor given o env s := by
  obtain ⟨strictMode, hflag⟩ := Option.isSome_iff_exists.1 h.flag
  have hnumbers : ∀ q : NumberSetting, ∃ n : Nat, q.Comes env (given q) n := by
    intro q
    obtain ⟨n, hn⟩ := h.numbers q
    have hnat : (n.toNat : Int) = n := by
      have hleast := hn.least
      omega
    exact ⟨n.toNat, hnat.symm ▸ hn⟩
  choose numbers hnumbers using hnumbers
  refine ⟨assembled (TextSetting.effective o env) numbers strictMode, ?_, ?_, hflag, rfl, rfl⟩
  · intro t
    rw [TextSetting.value_assembled]
  · intro q
    rw [NumberSetting.value_assembled]
    exact hnumbers q

theorem AskedFor.acceptable {given : NumberSetting → Option Int} {s : Settings} (h : AskedFor given o env s)
    (hnamed : TextSetting.candidatePrefix.effective o env ≠ []) : Acceptable given o env := by
  refine ⟨hnamed, ?_, ?_⟩
  · intro q
    exact ⟨_, h.numbers q⟩
  · rw [h.flag]
    rfl

/-! ## What the caller gives and what is looked at -/

/-- The low half of a word of 32 bits is the word itself, or it is negative and the word out of every range. -/
theorem lowWord_of_lt {n : Nat} (h : n < 4294967296) : lowWord n = n ∨ 2147483648 ≤ n ∧ lowWord n < 0 := by
  unfold lowWord
  rw [Int.bmod_def]
  split
  · left
    omega
  · right
    omega

/-- The words of 64 bits that the caller gives have no more than 32 bits. -/
structure Fits (o : Overrides) : Prop where
  logTailLines : ∀ n ∈ o.logTailLines, n < 4294967296
  parallelFiles : ∀ n ∈ o.parallelFiles, n < 4294967296

theorem comes_word_iff {word : Option Nat} (hword : ∀ w ∈ word, w < 4294967296) {n : Int} :
    q.Comes env (word.map Int.ofNat) n ↔ q.Comes env (word.map lowWord) n := by
  cases word with
  | none => rw [Option.map_none, Option.map_none]
  | some w =>
    show q.Comes env (some (w : Int)) n ↔ q.Comes env (some (lowWord w)) n
    rcases lowWord_of_lt (hword w (Option.mem_some_self w)) with hsame | ⟨hlarge, hnegative⟩
    · rw [hsame]
    · constructor
      · rintro ⟨heffective, hleast, hgreatest⟩
        have hfits := q.greatest_le
        rw [NumberSetting.effective?_some, Option.some.injEq] at heffective
        omega
      · rintro ⟨heffective, hleast, hgreatest⟩
        rw [NumberSetting.effective?_some, Option.some.injEq] at heffective
        omega

theorem Fits.comes_iff (h : Fits o) (q : NumberSetting) (n : Int) :
    q.Comes env (q.given o) n ↔ q.Comes env (q.received o) n := by
  cases q with
  | logTailLines => exact comes_word_iff h.logTailLines
  | parallelFiles => exact comes_word_iff h.parallelFiles
  | _ => exact Iff.rfl

/-! ## Exactness -/

/-- **Resolution is exact and atomic**: it succeeds just when the settings asked for can be had, it then gives these,
and else it leaves what was there before. -/
structure Exact (given : NumberSetting → Option Int) (out : Settings) (o : Overrides) (env : Environment) : Prop where
  succeeds : (resolveInto out o env).1 = none ↔ Acceptable given o env
  asked : (resolveInto out o env).1 = none → AskedFor given o env (resolveInto out o env).2
  unchanged : (resolveInto out o env).1 ≠ none → (resolveInto out o env).2 = out

/-- Resolution is exact in each reading of what the caller gives in which numbers come to the same. -/
theorem exact_of_comes {given : NumberSetting → Option Int}
    (h : ∀ q n, NumberSetting.Comes env (given q) q n ↔ NumberSetting.Comes env (q.received o) q n)
    (out : Settings) : Exact given out o env := by
  -- the two readings differ in the numbers only
  have hasked : ∀ s, AskedFor given o env s ↔ AskedFor (NumberSetting.received o) o env s := by
    intro s
    constructor
    · intro hs
      exact { hs with numbers := fun q => (h q _).1 (hs.numbers q) }
    · intro hs
      exact { hs with numbers := fun q => (h q _).2 (hs.numbers q) }
  have hacceptable : Acceptable given o env ↔ ∃ s, resolve o env = .ok s := by
    constructor
    · intro hacceptable
      obtain ⟨s, hs⟩ := hacceptable.exists_askedFor
      exact ⟨s, resolve_ok_iff.2 ⟨hacceptable.candidatePrefix, (hasked s).1 hs⟩⟩
    · rintro ⟨s, hs⟩
      obtain ⟨hnamed, hs⟩ := resolve_ok_iff.1 hs
      exact ((hasked s).2 hs).acceptable hnamed
  cases hresolve : resolve o env with
  | error e =>
    have hinto : resolveInto out o env = (some e, out) := by
      unfold resolveInto
      rw [hresolve]
    refine ⟨?_, ?_, ?_⟩
    · simp [hinto, hacceptable, hresolve]
    · simp [hinto]
    · simp [hinto]
  | ok s =>
    have hinto : resolveInto out o env = (none, s) := by
      unfold resolveInto
      rw [hresolve]
    refine ⟨?_, ?_, ?_⟩
    · simp [hinto, hacceptable, hresolve]
    · intro _
      rw [hinto]
      exact (hasked s).2 (resolve_ok_iff.1 hresolve).2
    · simp [hinto]

/-- **Resolution is exact**, in what is looked at of the caller's numbers, and so in these numbers themselves as long as
no word of 64 bits has more than 32. -/
theorem resolveInto_exact (out : Settings) (o : Overrides) (env : Environment) :
    Exact (NumberSetting.received o) out o env ∧ (Fits o → Exact (NumberSetting.given o) out o env) := by
  constructor
  · exact exact_of_comes (fun q n => Iff.rfl) out
  · intro hfits
    exact exact_of_comes hfits.comes_iff out

/-- In an environment in which all variables are empty, settings are given or they have their defaults. -/
theorem exact_of_empty_environment :
    let o : Overrides := { maxRetries := some 7, logTailLines := some 200 }
    let env : Environment := fun _ => some []
    Fits o ∧ Exact (NumberSetting.given o) {} o env ∧ (resolveInto {} o env).1 = none ∧
      (resolveInto {} o env).2 = { maxRetries := 7, logTailLines := 200 } := by
  have hfits : Fits { maxRetries := some 7, logTailLines := some 200 } := by
    constructor
    · simp
    · simp
  exact ⟨hfits, (resolveInto_exact {} { maxRetries := some 7, logTailLines := some 200 } _).2 hfits, by decide⟩

/-- Of a word of more than 32 bits the low half is taken, which the caller has not given. -/
theorem wide_word_taken_for_one :
    let o : Overrides := { logTailLines := some 4294967297 }
    ¬ Exact (NumberSetting.given o) {} o (fun _ => none) ∧ (resolveInto {} o fun _ => none).1 = none ∧
      (resolveInto {} o fun _ => none).2.logTailLines = 1 := by
  refine ⟨?_, by decide, by decide⟩
  intro hexact
  have hnumber := (hexact.asked (by decide)).numbers .logTailLines
  have heffective := hnumber.effective
  cases heffective

end Flatsheet.Settings
