import Flatsheet.Proofs.Conversion.Run
import Flatsheet.Proofs.Style.Usages

/-!
# `Proofs.Conversion.Repetition` — processing a processed sheet

A sheet is finished if no pass finds anything in it (`Finished`). Then each pass leaves it as it is
(`Finished.apply`), and so do all passes together.

The passes run once each, so what a late pass brings to light an early one has already passed by: the
output of a run need not be finished. If it is, the next run gives it back. The passes leave it alone because
they find nothing, and tidying leaves it alone because it has been tidied.
-/

namespace Flatsheet

open Text Style Check

variable {σ : Type} {hosts : AssetHosts} {t : Text} {c : Conversion}

/-! ## Finished sheets -/

/-- **No pass finds anything in the sheet.** -/
structure Finished (hosts : AssetHosts) (t : Text) : Prop where
  declarations : Declaration.find t = []
  usages : (convertUsages t).2 = 0
  addresses : hosts.edits t = []
  helpers : HelperCall.find t = []
  definitions : MixinDefinition.find t = []
  includes : Include.find t = []
  imports : Import.find t = []

instance (hosts : AssetHosts) (t : Text) : Decidable (Finished hosts t) :=
  decidable_of_iff
    (Declaration.find t = [] ∧ (convertUsages t).2 = 0 ∧ hosts.edits t = [] ∧ HelperCall.find t = [] ∧
      MixinDefinition.find t = [] ∧ Include.find t = [] ∧ Import.find t = [])
    ⟨fun ⟨h₁, h₂, h₃, h₄, h₅, h₆, h₇⟩ => ⟨h₁, h₂, h₃, h₄, h₅, h₆, h₇⟩,
      fun ⟨h₁, h₂, h₃, h₄, h₅, h₆, h₇⟩ => ⟨h₁, h₂, h₃, h₄, h₅, h₆, h₇⟩⟩

/-- A text in which no reference is converted stays as it is. -/
theorem convertUsages_of_none (h : (convertUsages t).2 = 0) : (convertUsages t).1 = t := by
  obtain ⟨-, hconverted⟩ := convertUsages_eq t
  rw [hconverted] at h ⊢
  have hnone : usages t = [] := List.length_eq_zero_iff.1 h
  rw [hnone]
  rfl

theorem hoist_of_none (hdeclarations : Declaration.find t = []) (husages : (convertUsages t).2 = 0) :
    (hoist t).content = t ∧ (hoist t).vars = [] := by
  have herased : eraseStatements t ((Declaration.find t).map (·.span)) = t := by
    rw [hdeclarations]
    rfl
  have hvars : (Variable.fold t (Declaration.find t)).vars = [] := by
    rw [hdeclarations]
    rfl
  constructor
  · simp only [hoist, hvars, herased]
    exact convertUsages_of_none husages
  · exact hvars

theorem replaceHelpers_of_none (h : HelperCall.find t = []) : replaceHelpers t = (t, []) := by
  unfold replaceHelpers
  cases t.count '(' + t.count '$' with
  | zero => rfl
  | succ rounds => simp [replaceHelperRounds, h]

theorem expandIncludes_of_none (h : Include.find t = []) : expandIncludes t = (t, []) := by
  unfold expandIncludes
  cases expansionLimit with
  | zero => rfl
  | succ rounds => simp [expandRounds, h]

/-- **A pass leaves a finished sheet as it is, and counts nothing.** -/
theorem Finished.apply (h : Finished hosts c.content) (hcounters : c.counters = {}) {p : Pass}
    (hp : p ≠ .layout) :
    (p.apply hosts c).1.content = c.content ∧ (p.apply hosts c).1.counters = {} := by
  cases p with
  | vars =>
    obtain ⟨hcontent, hvars⟩ := hoist_of_none h.declarations h.usages
    obtain ⟨htext, hcounts⟩ := apply_vars hosts c
    rw [htext, hcounts, hvars, hcounters]
    exact ⟨hcontent, rfl⟩
  | paths =>
    obtain ⟨htext, hcounts⟩ := apply_paths hosts c
    rw [htext, hcounts, h.addresses, hcounters]
    exact ⟨rfl, rfl⟩
  | helpers =>
    obtain ⟨htext, hcounts⟩ := apply_helpers hosts c
    rw [htext, hcounts, replaceHelpers_of_none h.helpers, hcounters]
    exact ⟨rfl, rfl⟩
  | mixins =>
    have hremoved : removeDefinitions c.content = (c.content, 0) := by
      simp [removeDefinitions, h.definitions, eraseStatements]
    obtain ⟨htext, hcounts⟩ := apply_mixins hosts c
    rw [htext, hcounts, hremoved, expandIncludes_of_none h.includes, hcounters]
    exact ⟨rfl, rfl⟩
  | imports =>
    have hremoved : removeImports c.content = (c.content, []) := by
      simp [removeImports, h.imports, eraseStatements]
    obtain ⟨htext, hcounts⟩ := apply_imports hosts c
    rw [htext, hcounts, hremoved, hcounters]
    exact ⟨rfl, rfl⟩
  | layout => exact absurd rfl hp

/-- **So do passes one after the other.** -/
theorem Finished.runPasses (h : Finished hosts c.content) (hcounters : c.counters = {}) {ps : List Pass}
    (hps : ∀ p ∈ ps, p ≠ .layout) :
    (runPasses hosts ps c).1.content = c.content ∧ (Flatsheet.runPasses hosts ps c).1.counters = {} := by
  induction ps generalizing c with
  | nil => exact ⟨rfl, hcounters⟩
  | cons p ps ih =>
    obtain ⟨hcontent, hzero⟩ := h.apply hcounters (hps p List.mem_cons_self)
    have hnext : Finished hosts (p.apply hosts c).1.content := by rwa [hcontent]
    obtain ⟨hrest, hrest'⟩ := ih hnext hzero fun q hq => hps q (List.mem_cons_of_mem p hq)
    exact ⟨hrest.trans hcontent, hrest'⟩

/-! ## Runs -/

/-- A tidy sheet of blanks is empty. -/
theorem eq_nil_of_emptyContent {o : ConversionOptions} (tidy : Tidy t)
    (h : o.refusal? t = some .emptyContent) : t = [] := by
  cases t with
  | nil => rfl
  | cons x b =>
    exfalso
    have hx : isBlank x = false := tidy.start x b rfl
    unfold ConversionOptions.refusal? at h
    split at h
    · next hblank =>
      rw [List.all_cons, Bool.and_eq_true] at hblank
      have hspace : x = ' ' ∨ x = '\t' ∨ x = '\r' ∨ x = '\n' := by
        simpa [or_assoc] using hblank.1
      rcases hspace with rfl | rfl | rfl | rfl <;> cases hx
    · split at h
      · cases h
      · cases h

/-- A finished and tidy sheet comes through the passes and the tidying as it is. -/
theorem Finished.converted {o : ConversionOptions} (h : Finished o.hosts t) (tidy : Tidy t)
    (fileName : Text) : clean (o.converted t fileName).content = t ∧ (o.converted t fileName).counters = {} := by
  have hstart : Finished o.hosts (Conversion.start t fileName).content := h
  obtain ⟨hcontent, hcounters⟩ := hstart.runPasses rfl o.layout_notMem_passes
  refine ⟨?_, hcounters⟩
  have hsame : (o.converted t fileName).content = t := hcontent
  rw [hsame, tidy.clean_eq]

/-- **Processing a processed sheet.** If a run succeeds, no pass finds anything in its output and the output
is not over the limit, then the next run gives the same output and counts nothing. -/
theorem process_again (compiler : Option (Compiler σ)) (content fileName : Text) (world world' : σ)
    {p : Processed} {notes : List Note}
    (first : (process {} compiler content fileName world).1 = .ok (p, notes)) (succeeded : p.success = true)
    (fits : p.output.length ≤ ({} : ConversionOptions).maxFileSizeBytes)
    (finished : Finished ({} : ConversionOptions).hosts p.output) :
    ∃ again notes', process {} compiler p.output fileName world' = (.ok (again, notes'), world') ∧
      again.output = p.output ∧ again.counters = {} := by
  have htidy : Tidy p.output := by
    cases hrefusal : ({} : ConversionOptions).refusal? content with
    | some r =>
      obtain ⟨q, more, hrun, hfailed, -⟩ := process_refused compiler fileName world hrefusal
      rw [hrun] at first
      cases first
      rw [hfailed] at succeeded
      cases succeeded
    | none =>
      obtain ⟨q, more, hrun, -, -, houtput, -⟩ :=
        process_accepted rfl rfl rfl rfl compiler fileName world hrefusal
      rw [hrun] at first
      cases first
      rw [houtput]
      exact tidy_clean _
  cases hrefusal : ({} : ConversionOptions).refusal? p.output with
  | none =>
    obtain ⟨again, notes', hrun, -, -, houtput, hcounters, -⟩ :=
      process_accepted rfl rfl rfl rfl compiler fileName world' hrefusal
    obtain ⟨hsame, hzero⟩ := finished.converted htidy fileName
    exact ⟨again, notes', hrun, houtput.trans hsame, hcounters.trans hzero⟩
  | some r =>
    obtain ⟨again, notes', hrun, -, -, houtput, hcounters⟩ :=
      process_refused compiler fileName world' hrefusal
    refine ⟨again, notes', hrun, ?_, hcounters⟩
    cases r with
    | emptyContent => rw [houtput, eq_nil_of_emptyContent htidy hrefusal]
    | oversize bytes limit =>
      exfalso
      unfold ConversionOptions.refusal? at hrefusal
      split at hrefusal
      · cases hrefusal
      · split at hrefusal
        · next hover => exact absurd fits (Nat.not_le.2 hover)
        · cases hrefusal

/-- A sheet with a variable and a reference to it. -/
def variableSheet : Text := "$primary: #fff;\n.a \x7b color: $primary; \x7d\n".toList

/-- What becomes of it. -/
def variableSheetOutput : Text :=
  ":root \x7b\n  --primary: #fff;\n\x7d\n\n.a \x7b color: var(--primary); \x7d".toList

theorem process_again_of_variable :
    ∃ p notes, process {} none variableSheet [] () = (.ok (p, notes), ()) ∧
      p.output = variableSheetOutput ∧
      ∃ again notes', process {} none p.output [] () = (.ok (again, notes'), ()) ∧
        again.output = p.output ∧ again.counters = {} := by
  have haccepted : ({} : ConversionOptions).refusal? variableSheet = none := by decide +kernel
  obtain ⟨p, notes, hrun, hsuccess, -, houtput, -⟩ :=
    process_accepted rfl rfl rfl rfl none [] () haccepted
  have hsheet : p.output = variableSheetOutput := by
    rw [houtput]
    decide +kernel
  refine ⟨p, notes, hrun, hsheet, ?_⟩
  apply process_again none variableSheet [] () () (congrArg Prod.fst hrun) hsuccess
  · rw [hsheet]
    decide +kernel
  · rw [hsheet]
    decide +kernel

/-- A sheet on whose third line a mixin definition ends and a rule stands. -/
def mixinSheet : Text :=
  "@mixin m($c) \x7b\n  color: $c;\n\x7d .a \x7b color: $primary; \x7d\n".toList

/-- **A line on which a mixin definition ends is passed by**, since it begins inside the definition. When
the definition is gone, the next run converts what stands on the rest of the line. -/
theorem mixin_end_hides_reference :
    ∃ p notes again notes', process {} none mixinSheet [] () = (.ok (p, notes), ()) ∧ p.success = true ∧
      process {} none p.output [] () = (.ok (again, notes'), ()) ∧ again.success = true ∧
      p.output = ".a \x7b color: $primary; \x7d".toList ∧
      again.output = ".a \x7b color: var(--primary); \x7d".toList := by
  have haccepted : ({} : ConversionOptions).refusal? mixinSheet = none := by decide +kernel
  obtain ⟨p, notes, hrun, hsuccess, -, houtput, -⟩ :=
    process_accepted rfl rfl rfl rfl none [] () haccepted
  have hfirst : p.output = ".a \x7b color: $primary; \x7d".toList := by
    rw [houtput]
    decide +kernel
  have haccepted' : ({} : ConversionOptions).refusal? p.output = none := by
    rw [hfirst]
    decide +kernel
  obtain ⟨again, notes', hagain, hsuccess', -, houtput', -⟩ :=
    process_accepted rfl rfl rfl rfl none [] () haccepted'
  refine ⟨p, notes, again, notes', hrun, hsuccess, hagain, hsuccess', hfirst, ?_⟩
  rw [houtput', hfirst]
  decide +kernel

end Flatsheet
