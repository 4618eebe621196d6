import Flatsheet.Conversion.Processor

/-!
# `Proofs.Conversion.Run` — what a run of the processor gives

Beside its text and its counters a conversion keeps records that no pass reads. What a full run without a
compiler gives depends on the passes alone: `process_accepted` for a sheet that is processed,
`process_refused` for one that is not. A compiler can break the run down, but it does not change the output
(`output_of_process`).
-/

namespace Flatsheet

open Text Style Check

variable {σ : Type}

/-- What a pass records about itself is apart from the text and the counters. -/
theorem content_record (c : Conversion) (name : Text) (step : Step) :
    ({ c.addTransformation name with step := step } : Conversion).content = c.content ∧
    ({ c.addTransformation name with step := step } : Conversion).counters = c.counters := by
  unfold Conversion.addTransformation
  split
  · exact ⟨rfl, rfl⟩
  · exact ⟨rfl, rfl⟩

theorem apply_vars (hosts : AssetHosts) (c : Conversion) :
    (Pass.vars.apply hosts c).1.content = (hoist c.content).content ∧
    (Pass.vars.apply hosts c).1.counters =
      { c.counters with variablesHoisted := (hoist c.content).vars.length } :=
  content_record (Pass.applyVariables c).1 Pass.vars.name Pass.vars.step

theorem apply_paths (hosts : AssetHosts) (c : Conversion) :
    (Pass.paths.apply hosts c).1.content = replaceSpans c.content (hosts.edits c.content) ∧
    (Pass.paths.apply hosts c).1.counters =
      { c.counters with pathsConverted := c.counters.pathsConverted + (hosts.edits c.content).length } :=
  content_record (Pass.applyPaths hosts c).1 Pass.paths.name Pass.paths.step

theorem apply_helpers (hosts : AssetHosts) (c : Conversion) :
    (Pass.helpers.apply hosts c).1.content = (replaceHelpers c.content).1 ∧
    (Pass.helpers.apply hosts c).1.counters =
      { c.counters with
        functionsReplaced := c.counters.functionsReplaced + (replaceHelpers c.content).2.length } :=
  content_record (Pass.applyHelpers c).1 Pass.helpers.name Pass.helpers.step

theorem apply_mixins (hosts : AssetHosts) (c : Conversion) :
    let body := (removeDefinitions c.content).1
    let calls := (expandIncludes body).2
    (Pass.mixins.apply hosts c).1.content = (expandIncludes body).1 ∧
    (Pass.mixins.apply hosts c).1.counters =
      { c.counters with
        mixinDefinitionsRemoved := c.counters.mixinDefinitionsRemoved + (removeDefinitions c.content).2
        mixinsResolved := c.counters.mixinsResolved + (calls.filter (·.isResolved)).length
        mixinsMarked := c.counters.mixinsMarked + (calls.filter fun call => !call.isResolved).length } :=
  content_record (Pass.applyMixins c).1 Pass.mixins.name Pass.mixins.step

theorem apply_imports (hosts : AssetHosts) (c : Conversion) :
    (Pass.imports.apply hosts c).1.content = (removeImports c.content).1 ∧
    (Pass.imports.apply hosts c).1.counters =
      { c.counters with
        importsRemoved := c.counters.importsRemoved + (removeImports c.content).2.length } :=
  content_record (Pass.applyImports c).1 Pass.imports.name Pass.imports.step

theorem apply_layout (hosts : AssetHosts) (c : Conversion) :
    (Pass.layout.apply hosts c).1.content = clean c.content ∧
    (Pass.layout.apply hosts c).1.counters = c.counters :=
  content_record (Pass.applyLayout c).1 Pass.layout.name Pass.layout.step

/-- No option asks for the tidying among the other passes: a run does it after them. -/
theorem ConversionOptions.layout_notMem_passes (o : ConversionOptions) : ∀ p ∈ o.passes, p ≠ .layout := by
  intro p hp
  rintro rfl
  simp [ConversionOptions.passes] at hp

/-- A full run is neither of the two that leave the sheet as it is. -/
theorem writes_of_full {o : ConversionOptions} (full : o.mode = .full) :
    o.mode ≠ .validationOnly ∧ o.mode ≠ .dryRun := by
  rw [full]
  exact ⟨nofun, nofun⟩

/-- The conversion of a sheet after the passes, before it is tidied. -/
def ConversionOptions.converted (o : ConversionOptions) (content fileName : Text) : Conversion :=
  (runPasses o.hosts o.passes (.start content fileName)).1

/-- **What a full run without a compiler gives for a sheet that it does not refuse.** -/
theorem process_accepted {o : ConversionOptions} (full : o.mode = .full) (checks : o.validateSyntax = true)
    (alone : o.testCompilation = false) (lenient : o.strictMode = false) (compiler : Option (Compiler σ))
    {content : Text} (fileName : Text) (world : σ) (accepted : o.refusal? content = none) :
    ∃ p notes, process o compiler content fileName world = (.ok (p, notes), world) ∧
      p.success = true ∧ p.refusal = none ∧ p.output = clean (o.converted content fileName).content ∧
      p.counters = (o.converted content fileName).counters ∧
      p.validation = some (checkSyntax (o.converted content fileName).content).1 := by
  -- without a compiler the verdict is the syntax check alone
  have hvalidate : validate (o.compiler? compiler) (o.converted content fileName).content world =
      (.ok (checkSyntax (o.converted content fileName).content), world) := by
    have hnone : o.compiler? compiler = none := by
      unfold ConversionOptions.compiler?
      rw [alone]
      rfl
    rw [hnone]
    rfl
  obtain ⟨houtput, hcounters⟩ := apply_layout o.hosts (o.converted content fileName)
  obtain ⟨hmode, hdry⟩ := writes_of_full full
  unfold process
  rw [accepted]
  simp only [ConversionOptions.converted] at hvalidate houtput hcounters ⊢
  simp only [if_neg hmode, if_neg hdry, ConversionOptions.verdict, checks, if_true, hvalidate]
  refine ⟨_, _, rfl, ?_, ?_, ?_, ?_, ?_⟩
  · simp [lenient]
  · rfl
  · exact houtput
  · exact hcounters
  · rfl

/-- A sheet that is refused gives nothing. -/
theorem process_refused {o : ConversionOptions} (compiler : Option (Compiler σ)) {content : Text}
    (fileName : Text) (world : σ) {r : Refusal} (refused : o.refusal? content = some r) :
    ∃ p notes, process o compiler content fileName world = (.ok (p, notes), world) ∧
      p.success = false ∧ p.refusal = some r ∧ p.output = [] ∧ p.counters = {} := by
  unfold process
  rw [refused]
  exact ⟨_, _, rfl, rfl, rfl, rfl, rfl⟩

/-- Without a compiler each run gives a result. -/
theorem process_answers {o : ConversionOptions} {compiler : Option (Compiler σ)}
    (h : o.compiler? compiler = none) (content fileName : Text) (world : σ) :
    ∃ p notes, process o compiler content fileName world = (.ok (p, notes), world) := by
  have hverdict : ∀ t, ∃ v more, o.verdict compiler t world = (.ok (v, more), world) := by
    intro t
    unfold ConversionOptions.verdict
    rw [h]
    split
    · exact ⟨_, _, rfl⟩
    · exact ⟨_, _, rfl⟩
  unfold process
  dsimp only
  split
  · exact ⟨_, _, rfl⟩
  · split
    · rw [h]
      exact ⟨_, _, rfl⟩
    · obtain ⟨v, more, hv⟩ := hverdict (runPasses o.hosts o.passes (.start content fileName)).1.content
      rw [hv]
      exact ⟨_, _, rfl⟩

/-- A validation fails only if the compiler breaks down over the sheet. -/
theorem validate_breakdown {compiler : Option (Compiler σ)} {t message : Text} {world after : σ}
    (h : validate compiler t world = (.error message, after)) :
    ∃ c w, compiler = some c ∧ (c.compile t w).1 = .error message := by
  unfold validate at h
  dsimp only at h
  split at h
  · cases h
  · next c =>
    refine ⟨c, (c.available world).2, rfl, ?_⟩
    split at h
    · cases h
    · next hcheck =>
      cases h
      unfold checkCompilation at hcheck
      split at hcheck
      · cases hcheck
      · next hasked =>
        rw [hasked]
        dsimp only at hcheck ⊢
        split at hcheck
        · next hcompile =>
          cases hcheck
          rw [hcompile]
        · split at hcheck <;> cases hcheck

theorem verdict_breakdown {o : ConversionOptions} {compiler : Option (Compiler σ)} {t message : Text}
    {world after : σ} (h : o.verdict compiler t world = (.error message, after)) :
    ∃ c w, o.compiler? compiler = some c ∧ (c.compile t w).1 = .error message := by
  unfold ConversionOptions.verdict at h
  split at h
  · split at h
    · next hvalidate =>
      cases h
      exact validate_breakdown hvalidate
    · cases h
  · cases h

/-- **What a full run gives for a sheet that it does not refuse**: the tidied result of the passes, unless the
compiler that it asks breaks down. -/
theorem process_full {o : ConversionOptions} (full : o.mode = .full) (compiler : Option (Compiler σ))
    {content : Text} (fileName : Text) (world : σ) (accepted : o.refusal? content = none) :
    (∃ p notes, (process o compiler content fileName world).1 = .ok (p, notes) ∧
      p.output = clean (o.converted content fileName).content ∧
      p.counters = (o.converted content fileName).counters) ∨
    ∃ c message w, o.compiler? compiler = some c ∧
      (c.compile (o.converted content fileName).content w).1 = .error message ∧
      (process o compiler content fileName world).1 = .error message := by
  obtain ⟨houtput, hcounters⟩ := apply_layout o.hosts (o.converted content fileName)
  unfold process
  rw [accepted]
  simp only [ConversionOptions.converted] at houtput hcounters ⊢
  simp only [full, reduceCtorEq, if_false]
  cases hverdict : o.verdict compiler (runPasses o.hosts o.passes (.start content fileName)).1.content world with
  | mk result after =>
    cases result with
    | ok checked => exact .inl ⟨_, _, rfl, houtput, hcounters⟩
    | error message =>
      obtain ⟨c, w, hasked, hbroken⟩ := verdict_breakdown hverdict
      exact .inr ⟨c, message, w, hasked, hbroken, rfl⟩

/-- **What a full run gives, if it gives anything**: the tidied result of the passes, and nothing for a sheet
that is refused. -/
theorem output_of_process {o : ConversionOptions} (full : o.mode = .full) {compiler : Option (Compiler σ)}
    {content fileName : Text} {world : σ} {p : Processed} {notes : List Note}
    (h : (process o compiler content fileName world).1 = .ok (p, notes)) :
    p.output = [] ∨ p.output = clean (o.converted content fileName).content := by
  obtain ⟨hmode, hdry⟩ := writes_of_full full
  unfold process at h
  dsimp only at h
  split at h
  · cases h
    exact .inl rfl
  · rw [if_neg hmode] at h
    split at h
    · cases h
    · cases h
      obtain ⟨houtput, -⟩ := apply_layout o.hosts (o.converted content fileName)
      right
      show (if o.mode = .dryRun then content else _) = _
      rw [if_neg hdry]
      exact houtput

/-- **A run that is no success has refused the sheet, or it is strict and has found the sheet invalid.** -/
theorem failure_of_process {o : ConversionOptions} {compiler : Option (Compiler σ)} {content fileName : Text}
    {world : σ} {p : Processed} {notes : List Note}
    (h : (process o compiler content fileName world).1 = .ok (p, notes)) (failure : p.success = false) :
    ((o.refusal? content).isSome = true ∧ p.output = []) ∨
      (o.strictMode = true ∧ ∃ v, p.validation = some v ∧ v.isValid = false) := by
  unfold process at h
  dsimp only at h
  split at h
  · next r hrefused =>
    cases h
    left
    rw [hrefused]
    exact ⟨rfl, rfl⟩
  · split at h
    · split at h
      · cases h
      · next v more after hverdict =>
        cases h
        right
        have hstrict : (!o.strictMode || v.isValid) = false := failure
        rw [Bool.or_eq_false_iff, Bool.not_eq_false'] at hstrict
        exact ⟨hstrict.1, v, rfl, hstrict.2⟩
    · split at h
      · cases h
      · next v more after hverdict =>
        cases h
        right
        have hstrict : (!o.strictMode || v.all (·.isValid)) = false := failure
        rw [Bool.or_eq_false_iff, Bool.not_eq_false'] at hstrict
        cases v with
        | none => cases hstrict.2
        | some v => exact ⟨hstrict.1, v, rfl, hstrict.2⟩

/-- The size that is counted is that of the sheet. -/
theorem inputBytes_of_process {o : ConversionOptions} {compiler : Option (Compiler σ)}
    {content fileName : Text} {world : σ} {p : Processed} {notes : List Note}
    (h : (process o compiler content fileName world).1 = .ok (p, notes)) : p.inputBytes = content.length := by
  unfold process at h
  dsimp only at h
  split at h
  · cases h
    rfl
  · split at h
    · split at h
      · cases h
      · cases h
        rfl
    · split at h
      · cases h
      · cases h
        rfl

end Flatsheet
