import Flatsheet.Diagnostic
import Flatsheet.Repair.Fixer
import Flatsheet.Repair.LogWindow
import Flatsheet.Repair.Surroundings
import Flatsheet.Settings
import Flatsheet.StageTrace

/-!
# `Flatsheet.Repair.Loop` — compile, read the errors, repair, and try again

Copies of the files, the candidates, are put into the directory that the compiler watches. If the compiler
reports errors, the candidates are repaired and put there again: some times with repairs for the reported
errors, then some times with the aggressive repair. Only when the candidates compile are the files
themselves written. At the end the candidates are removed and the directory is put back.

## Contents

* `VerifyOptions`, `VerifyState`, `Tier`, `AttemptOutcome`, `Attempt`, `VerifyOutcome`, `Verification`
* `Run`: a verification under way
* `stage`, `submit`, `poll`, `attempt`, `attempts`, `writeBack`, `conclude`, `cleanUp`: its phases
* `pursue`, `verify`
-/

namespace Flatsheet.Repair

open Text Log

/-! ## Options and results -/

/-- How a verification goes about it. Times are in milliseconds. -/
structure VerifyOptions where
  /-- The directory that the compiler watches. -/
  watchDirectory : Text
  /-- What the name of a candidate puts before the name of its target. -/
  candidatePrefix : Text := ({} : Settings).candidatePrefix
  maxRetries : Int := ({} : Settings).maxRetries
  maxEscalations : Int := ({} : Settings).maxEscalations
  pollInterval : Int := ({} : Settings).pollInterval * 1000
  compileWait : Int := ({} : Settings).compileWait * 1000
  cleanupWait : Int := ({} : Settings).cleanupWait * 1000
  tailLines : Nat := ({} : Settings).logTailLines
  /-- A line of the log that holds one of these, in any case, says that the compiler is done. -/
  finishedMarkers : List Text := ["finished 'sass'".toList, "finished 'processcss'".toList]
  /-- A line of the log that holds one of these, in any case, tells of an error. -/
  errorIndicators : List Text :=
    ["error:", "failed", "scss compilation error", "syntax error"].map String.toList

namespace VerifyOptions

/-- The options that settings ask for. -/
def ofSettings (s : Settings) (watchDirectory : Text) : VerifyOptions where
  watchDirectory
  candidatePrefix := s.candidatePrefix
  maxRetries := s.maxRetries
  maxEscalations := s.maxEscalations
  pollInterval := s.pollInterval * 1000
  compileWait := s.compileWait * 1000
  cleanupWait := s.cleanupWait * 1000
  tailLines := s.logTailLines

/-- The time between two looks: at least a millisecond. -/
def interval (o : VerifyOptions) : Int := max o.pollInterval 1

end VerifyOptions

/-- The states that a verification passes through. -/
inductive VerifyState
  | submitted
  | polling
  | success
  | errorsFound
  | fixing
  | aggressiveFixing
  | succeeded
  | failed
  | cancelled
  | cleaningUp
deriving DecidableEq, Repr

/-- The word for a state. -/
def VerifyState.name : VerifyState → Text
  | submitted => "submitted".toList
  | polling => "polling".toList
  | success => "success".toList
  | errorsFound => "errors_found".toList
  | fixing => "fixing".toList
  | aggressiveFixing => "aggressive_fixing".toList
  | succeeded => "succeeded".toList
  | failed => "failed".toList
  | cancelled => "cancelled".toList
  | cleaningUp => "cleaning_up".toList

/-- The two tiers of attempts. -/
inductive Tier
  /-- Repairs for the reported errors. -/
  | standard
  /-- The aggressive repair. -/
  | aggressive
deriving DecidableEq, Repr

/-- The word for a tier. -/
def Tier.name : Tier → Text
  | standard => "standard".toList
  | aggressive => "aggressive".toList

/-- How an attempt ends. -/
inductive AttemptOutcome
  /-- There were repairs, and another attempt follows. -/
  | retry
  /-- There is nothing left to repair in this tier. -/
  | escalate
  | success
  /-- The last attempt has failed. -/
  | exhausted
  | cancelled
deriving DecidableEq, Repr

/-- The word for the end of an attempt. -/
def AttemptOutcome.name : AttemptOutcome → Text
  | retry => "retry".toList
  | escalate => "escalate".toList
  | success => "success".toList
  | exhausted => "exhausted".toList
  | cancelled => "cancelled".toList

/-- One attempt. -/
structure Attempt where
  /-- The number of the attempt, from one. -/
  cycle : Nat
  tier : Tier
  timedOut : Bool := false
  errors : List CompileError := []
  fixes : List Alteration := []
  outcome : AttemptOutcome := .retry
deriving DecidableEq, Repr

/-- How a verification ends. -/
inductive VerifyOutcome
  | succeeded
  | failed
  | cancelled
deriving DecidableEq, Repr

/-- The word for the end of a verification. -/
def VerifyOutcome.name : VerifyOutcome → Text
  | succeeded => "succeeded".toList
  | failed => "failed".toList
  | cancelled => "cancelled".toList

/-- The result of a verification. -/
structure Verification where
  outcome : VerifyOutcome := .failed
  message : Text := []
  attempts : List Attempt := []
  report : Report := []
  trace : StageTrace VerifyState := {}
  pollCycles : Nat := 0
  /-- Nothing that was to be removed at the end is left. -/
  cleanupComplete : Bool := false
  /-- The watched directory was put back. -/
  reverted : Bool := false
deriving Repr

/-! ## A verification under way -/

/-- A verification under way in a world. -/
structure Run (σ : Type) where
  world : σ
  /-- The end of the log as it was at the last look that counts. -/
  baseline : List Text := []
  files : List Candidate := []
  lastErrors : List CompileError := []
  result : Verification := {}
  /-- What there is to say so far. -/
  notes : List Note := []

namespace Run

variable {σ : Type}

/-- There is something to say. -/
def note (r : Run σ) (severity : Severity) (stage : Text) (message : Text) : Run σ :=
  { r with notes := r.notes ++ [⟨severity, "verify".toList, stage, message⟩] }

/-- The verification enters a state. -/
def enter (r : Run σ) (s : VerifyState) : Run σ :=
  { r with result := { r.result with trace := r.result.trace.record s } }

/-- The verification ends in one way or another. -/
def finish (r : Run σ) (outcome : VerifyOutcome) (message : Text) (s : VerifyState) : Run σ :=
  { r with result := { r.result with outcome, message } }.enter s

/-- Files are repaired, with these alterations. -/
def alter (r : Run σ) (files : List Candidate) (alterations : List Alteration) : Run σ :=
  { r with files, result := { r.result with report := r.result.report ++ alterations } }

/-- An attempt has ended. -/
def record (r : Run σ) (a : Attempt) : Run σ :=
  { r with result := { r.result with attempts := r.result.attempts ++ [a] } }.note .debug a.tier.name
    ("cycle ".toList ++ Text.ofNat a.cycle ++ ": ".toList ++ a.outcome.name ++ ", ".toList
      ++ Text.ofNat a.errors.length ++ " errors, ".toList ++ Text.ofNat a.fixes.length
      ++ " fixes".toList)

end Run

/-- One of the lines holds one of the pieces, in any case. -/
def mentions (ls pieces : List Text) : Bool :=
  ls.any fun l => pieces.any fun p => has (lower l) (lower p)

/-- The output beside a compiled file that maps it to its source. -/
def mapPath (compiled : Text) : Text := compiled ++ ".map".toList

/-! ## Staging -/

/-- The path of the candidate of a target. -/
def candidatePath (o : VerifyOptions) (target : Text) : Text :=
  Path.join o.watchDirectory (o.candidatePrefix ++ Path.fileName target)

/-- The path of the output that the compiler is expected to make of a candidate. -/
def compiledPath (o : VerifyOptions) (target : Text) : Text :=
  Path.withExtension (candidatePath o target) ".css".toList

/-- The candidate of a target with the given content. -/
def Candidate.ofTarget (o : VerifyOptions) (target content : Text) : Candidate where
  target
  path := candidatePath o target
  compiled := compiledPath o target
  former := content
  lines := Text.lines content

/-- The candidates of targets, all of which have to be readable. -/
def stage (o : VerifyOptions) (t : FileTree) :
    List Text → Except FileTree.ReadError (List Candidate)
  | [] => .ok []
  | target :: targets => do
    let content ← t.read target
    return .ofTarget o target content :: (← stage o t targets)

/-! ## Submitting -/

/-- What comes of putting the candidates into the watched directory. -/
inductive Submission
  | done
  | failed (cause : FileTree.WriteError)
  | broken (message : Text)

section

variable {σ : Type} (env : Surroundings σ) (o : VerifyOptions)

/-- The world without the outputs of former attempts. -/
def removeOutputs (files : List Candidate) (w : σ) : σ :=
  files.foldl (fun w f => (env.remove (mapPath f.compiled) (env.remove f.compiled w).2).2) w

/-- Writes the candidates, up to the first one that cannot be written. -/
def writeCandidates : List Candidate → σ → Except FileTree.WriteError Unit × σ
  | [], w => (.ok (), w)
  | f :: fs, w =>
    match env.writeFile f.path f.content w with
    | (.ok (), w) => writeCandidates fs w
    | (.error e, w) => (.error e, w)

/-- Takes down the end of the log as the baseline. Without a log the baseline is empty. -/
def takeBaseline (stage : Text) (r : Run σ) : Except Text Unit × Run σ :=
  match env.tail o.tailLines r.world with
  | (.lines ls, world) => (.ok (), { r with world, baseline := ls })
  | (.unavailable m, world) =>
    (.ok (), { r with world, baseline := [] }.note .debug stage ("log tail failed: ".toList ++ m))
  | (.broken m, world) => (.error m, { r with world, baseline := [] })

/-- Puts the candidates into the watched directory: former outputs go first, then the baseline is taken,
so that all that the log says about the candidates is new. -/
def submit (r : Run σ) : Submission × Run σ :=
  let r := { r with world := removeOutputs env r.files r.world }
  match takeBaseline env o "submit".toList r with
  | (.error m, r) => (.broken m, r)
  | (.ok (), r) =>
    match writeCandidates env r.files r.world with
    | (.ok (), world) => (.done, { r with world })
    | (.error e, world) => (.failed e, { r with world })

/-! ## Polling -/

/-- What comes of waiting for the compiler. -/
inductive PollStatus
  | compiled
  | errors (es : List CompileError)
  | timedOut
  | cancelled
  | broken (message : Text)

/-- All candidates have been compiled. -/
def allCompiled (r : Run σ) : Bool := r.files.all fun f => (env.tree r.world).present f.compiled

/-- The lines of the log that are new since the baseline. -/
def readNewLines (r : Run σ) : Except Text (List Text) × Run σ :=
  match env.tail o.tailLines r.world with
  | (.lines ls, world) => (.ok (newLines o.tailLines r.baseline ls), { r with world })
  | (.unavailable m, world) =>
    (.ok [], { r with world }.note .debug "poll".toList ("log tail failed: ".toList ++ m))
  | (.broken m, world) => (.error m, { r with world })

/-- What new lines of the log say, if they say anything. Errors count before the word that the compiler is
done. -/
def judge (ls : List Text) : Except LogFault (Option PollStatus) :=
  (CompileError.parse ls).map fun es =>
    if !es.isEmpty || mentions ls o.errorIndicators then some (.errors es)
    else if mentions ls o.finishedMarkers then some .compiled
    else none

/-- One look after a sleep: what it shows, if it ends the waiting. -/
def look (r : Run σ) : Option PollStatus × Run σ :=
  let r := { r with world := env.sleep o.interval r.world }
  if allCompiled env r then (some .compiled, r)
  else match readNewLines env o r with
    | (.error m, r) => (some (.broken m), r)
    | (.ok ls, r) =>
      match judge o ls with
      | .error fault => (some (.broken fault.message), r)
      | .ok (some (.errors es)) =>
        (some (.errors es), es.foldl (fun r e => r.note .debug "poll".toList e.describe) r)
      | .ok status => (status, r)

/-- Waits until a deadline, with so many looks at most. -/
def waitFor (deadline : Int) : Nat → Run σ → PollStatus × Run σ
  | 0, r => (.timedOut, r)
  | looks + 1, r =>
    if deadline ≤ env.now r.world then (.timedOut, r)
    else match env.isCancelled r.world with
      | (true, world) => (.cancelled, { r with world })
      | (false, world) =>
        match look env o { r with world } with
        | (some status, r) => (status, r)
        | (none, r) => waitFor deadline looks r

/-- Waits for the compiler. -/
def poll (r : Run σ) : PollStatus × Run σ :=
  let r := r.enter .polling
  let r := { r with result := { r.result with pollCycles := r.result.pollCycles + 1 } }
  waitFor env o (env.now r.world + o.compileWait) (env.patience o.interval o.compileWait) r

/-! ## Attempts -/

/-- The end of an attempt, which is put on record; or the message of a breakdown, and the attempt is
not. -/
abbrev AttemptEnd := Except Text AttemptOutcome

/-- An attempt ends. -/
def close (a : Attempt) (outcome : AttemptOutcome) (r : Run σ) : AttemptEnd × Run σ :=
  (.ok outcome, r.record { a with outcome })

/-- The repairs after a failed attempt: in the standard tier those for its errors. In the aggressive tier
the next attempt begins with them. -/
def repairAfter (a : Attempt) (last : Bool) (r : Run σ) : AttemptEnd × Run σ :=
  match a.tier with
  | .aggressive => close a (if last then .exhausted else .retry) r
  | .standard =>
    let (files, alterations) := fixAll a.errors r.files
    let a := { a with fixes := alterations }
    close a (if alterations.isEmpty || last then .escalate else .retry)
      ((r.enter .fixing).alter files alterations)

/-- The repairs before an attempt: in the aggressive tier the aggressive one and those for the errors
reported last. -/
def repairBefore (a : Attempt) (r : Run σ) : Attempt × Run σ :=
  match a.tier with
  | .standard => (a, r)
  | .aggressive =>
    let (files, first) := fixAggressively r.files
    let (files, more) := fixAll r.lastErrors files
    ({ a with fixes := first ++ more }, (r.enter .aggressiveFixing).alter files (first ++ more))

/-- Submits the candidates and waits for the compiler. -/
def compile (a : Attempt) (last : Bool) (r : Run σ) : AttemptEnd × Run σ :=
  match submit env o (r.enter .submitted) with
  | (.broken m, r) => (.error m, r)
  | (.failed e, r) =>
    close a .exhausted
      { r with result := { r.result with message := "submission failed: ".toList ++ e.message } }
  | (.done, r) =>
    match poll env o r with
    | (.broken m, r) => (.error m, r)
    | (.cancelled, r) => close a .cancelled r
    | (.compiled, r) => close a .success (r.enter .success)
    | (.timedOut, r) =>
      repairAfter { a with timedOut := true } last ({ r with lastErrors := [] }.enter .errorsFound)
    | (.errors es, r) =>
      repairAfter { a with errors := es } last ({ r with lastErrors := es }.enter .errorsFound)

/-- One attempt. -/
def attempt (tier : Tier) (last : Bool) (r : Run σ) : AttemptEnd × Run σ :=
  let a : Attempt := { cycle := r.result.attempts.length + 1, tier }
  match env.isCancelled r.world with
  | (true, world) => close a .cancelled { r with world }
  | (false, world) =>
    let (a, r) := repairBefore a { r with world }
    compile env o a last r

/-- At most so many attempts of a tier, as long as another one is called for. Without a single attempt
the outcome is the given one. -/
def attempts (tier : Tier) (none : AttemptOutcome) : Nat → Run σ → AttemptEnd × Run σ
  | 0, r => (.ok none, r)
  | left + 1, r =>
    match attempt env o tier (left = 0) r with
    | (.ok .retry, r) => attempts tier .retry left r
    | (ended, r) => (ended, r)

/-- The attempts of both tiers. -/
def bothTiers (r : Run σ) : AttemptEnd × Run σ :=
  match attempts env o .standard .escalate o.maxRetries.toNat r with
  | (.ok .escalate, r) => attempts env o .aggressive .exhausted o.maxEscalations.toNat r
  | (ended, r) => (ended, r)

/-! ## The end -/

/-- Writes the repaired files, up to the first one that cannot be written. -/
def writeBack : List Candidate → Run σ → Except FileTree.WriteError Unit × Run σ
  | [], r => (.ok (), r)
  | f :: fs, r =>
    if !f.dirty || f.content = f.former then writeBack fs r
    else match env.writeFile f.target f.content r.world with
      | (.ok (), world) => writeBack fs
          ({ r with world }.note .info "write_back".toList ("updated ".toList ++ f.target))
      | (.error e, world) => (.error e, { r with world })

/-- What comes of the attempts. -/
def conclude (ended : AttemptEnd) (r : Run σ) : Run σ :=
  let cycles := Text.ofNat r.result.attempts.length ++ " cycle(s)".toList
  match ended with
  | .error m => r.finish .failed ("verification aborted: ".toList ++ m) .failed
  | .ok .cancelled => r.finish .cancelled "verification cancelled".toList .cancelled
  | .ok .success =>
    match writeBack env r.files r with
    | (.error e, r) =>
      r.finish .failed
        ("compiled, but writing the repaired files failed: ".toList ++ e.message) .failed
    | (.ok (), r) =>
      r.finish .succeeded
        ("compiled after ".toList ++ cycles ++ " with ".toList
          ++ Text.ofNat r.result.report.length ++ " alteration(s)".toList) .succeeded
  | .ok _ =>
    r.finish .failed
      (if r.result.message.isEmpty then "still failing after ".toList ++ cycles
        else r.result.message) .failed

/-- Removes a file at the end; one that cannot be removed is worth a warning. -/
def discard (path : Text) (r : Run σ) : Bool × Run σ :=
  match env.remove path r.world with
  | (.ok (), world) => (true, { r with world })
  | (.error e, world) =>
    (false, { r with world }.note .warning "cleanup".toList
      ("could not remove ".toList ++ path ++ ": ".toList ++ e.message))

/-- Removes files at the end. -/
def discardAll : List Text → Run σ → Bool × Run σ
  | [], r => (true, r)
  | p :: ps, r =>
    let (first, r) := discard env p r
    let (others, r) := discardAll ps r
    (first && others, r)

/-- Waits, with so many looks at most, until the log says that the compiler has noticed. -/
def waitForWatcher (deadline : Int) : Nat → Run σ → Except Text Unit × Run σ
  | 0, r => (.ok (), r)
  | looks + 1, r =>
    if deadline ≤ env.now r.world then (.ok (), r)
    else match readNewLines env o { r with world := env.sleep o.interval r.world } with
      | (.error m, r) => (.error m, r)
      | (.ok ls, r) =>
        if mentions ls o.finishedMarkers then (.ok (), r) else waitForWatcher deadline looks r

/-- Gives the compiler a chance to notice that the candidates are gone. -/
def letWatcherNotice (r : Run σ) : Run σ :=
  let (waited, r) : Except Text Unit × Run σ := match env.tail o.tailLines r.world with
    | (.broken m, world) => (.error m, { r with world, baseline := [] })
    | (reading, world) =>
      let baseline := match reading with
        | .lines ls => ls
        | _ => []
      waitForWatcher env o (env.now world + o.cleanupWait) (env.patience o.interval o.cleanupWait)
        { r with world, baseline }
  match waited with
  | .ok () => r
  | .error m => r.note .warning "cleanup".toList ("waiting for the watcher failed: ".toList ++ m)

/-- Puts the watched directory back. -/
def revert (r : Run σ) : Run σ :=
  let (reversion, world) := env.revert o.watchDirectory r.world
  let r := { r with world }
  let failure (m : Text) : Run σ :=
    r.note .warning "cleanup".toList ("revert failed: ".toList ++ m)
  match reversion with
  | .done => { r with result := { r.result with reverted := true } }
  | .failed m => failure m
  | .broken m => failure m

/-- Removes the candidates and all that came of them, and puts the watched directory back. -/
def cleanUp (r : Run σ) : Run σ :=
  let r := r.enter .cleaningUp
  let (complete, r) := discardAll env
    (r.files.flatMap fun f => [f.path, f.compiled, mapPath f.compiled]) r
  let r := if r.files.isEmpty then r else letWatcherNotice env o r
  let r := revert env o r
  { r with result := { r.result with cleanupComplete := complete } }

/-- All of a verification but its end: the attempts, and what comes of them. -/
def pursue (r : Run σ) : Run σ :=
  let (ended, r) := bothTiers env o r
  conclude env ended r

/-- Verifies files. `baseline` is what an earlier verification left behind. -/
def verify (targets : List Text) (baseline : List Text) (world : σ) : Run σ :=
  let r : Run σ := { world, baseline }
  match stage o (env.tree world) targets with
  | .error e =>
    let message := "cannot stage candidates: ".toList ++ e.message
    (r.finish .failed message .failed).note .error "stage".toList message
  | .ok files =>
    let r := cleanUp env o (pursue env o { r with files })
    r.note (if r.result.outcome = .succeeded then .info else .error) "verify".toList
      (r.result.outcome.name ++ ": ".toList ++ r.result.message)

end

end Flatsheet.Repair
