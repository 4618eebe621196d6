import Flatsheet.Proofs.Conversion.Repetition

/-!
# `Proofs.Conversion.Plain` — plain style sheets come through untouched

A style sheet is plain if its code shows nothing that a pass looks for (`PlainSheet`). Each scanner reads the
code mask or the comment mask, so what comments and strings hold does not matter to it: `PlainSheet.finished`
says that no pass finds anything. A full run then only tidies the sheet (`process_plain`).
-/

namespace Flatsheet

open Text Style Check

variable {σ α : Type} {t w word : Text} {look : Cursor → Sighting α}

/-! ## Scanners that find nothing -/

/-- A piece that does not occur begins at no place. -/
theorem not_startsWith_of_has (h : has w word = false) (n : Nat) : startsWith (w.drop n) word = false := by
  unfold has at h
  rw [Option.isSome_eq_false_iff, Option.isNone_iff_eq_none] at h
  induction w generalizing n with
  | nil =>
    rw [find?] at h
    have hword : word ≠ [] := by
      intro hnil
      rw [if_pos hnil] at h
      cases h
    obtain ⟨x, r, rfl⟩ := List.exists_cons_of_ne_nil hword
    rw [List.drop_nil]
    rfl
  | cons c r ih =>
    rw [find?] at h
    split at h
    · cases h
    · next hhere =>
      cases n with
      | zero => exact Bool.eq_false_iff.2 hhere
      | succ n => exact ih (Option.map_eq_none_iff.1 h) n

/-- **A scanner for a word finds nothing where the word does not occur.** -/
theorem sweep_of_absent (habsent : has w word = false)
    (hlook : ∀ c a n, look c = .found a n → startsWith c.rest word = true) : sweep look w = [] := by
  rw [List.eq_nil_iff_forall_not_mem]
  intro a ha
  obtain ⟨c, n, hc, hfound⟩ := mem_sweep ha
  have hword := hlook c a n hfound
  rw [hc.rest, not_startsWith_of_has habsent] at hword
  cases hword

theorem find_of_no_definition (h : has (codeMask t) "@mixin".toList = false) : MixinDefinition.find t = [] := by
  apply sweep_of_absent h
  intro c m n hfound
  unfold MixinDefinition.look at hfound
  dsimp only at hfound
  split at hfound
  · cases hfound
  · next hword =>
    simp only [Bool.or_eq_true, not_or, Bool.not_eq_true'] at hword
    simpa using hword.1

theorem find_of_no_include (h : has (codeMask t) "@include".toList = false) : Include.find t = [] := by
  apply sweep_of_absent h
  intro c i n hfound
  unfold Include.look at hfound
  dsimp only at hfound
  split at hfound
  · cases hfound
  · next hword =>
    simp only [Bool.or_eq_true, not_or, Bool.not_eq_true'] at hword
    simpa using hword.1

theorem find_of_no_import (h : has (codeMask t) "@import".toList = false) : Import.find t = [] := by
  apply sweep_of_absent h
  intro c i n hfound
  unfold Import.look at hfound
  dsimp only at hfound
  split at hfound
  · cases hfound
  · next hword =>
    simp only [Bool.or_eq_true, not_or, Bool.not_eq_true'] at hword
    simpa using hword.1

theorem edits_of_no_address (hosts : AssetHosts) (h : has (commentMask t) "url(".toList = false) :
    hosts.edits t = [] := by
  have hnone : sweep (hosts.look t (codeMask t)) (commentMask t) = [] := by
    apply sweep_of_absent h
    intro c found n hfound
    unfold AssetHosts.look at hfound
    split at hfound
    · cases hfound
    · next hword =>
      simp only [Bool.or_eq_true, not_or, Bool.not_eq_true'] at hword
      simpa using hword.1
  unfold AssetHosts.edits
  rw [hnone]
  rfl

/-- No declaration begins without a dollar sign. -/
theorem findFrom_of_no_dollar {s : Declaration.Scan} {seen : Text} {pos wait : Nat} (h : '$' ∉ w) :
    Declaration.findFrom t s seen pos wait w = [] := by
  induction w generalizing s seen pos wait with
  | nil => rfl
  | cons c r ih =>
    simp only [List.mem_cons, not_or] at h
    rw [Declaration.findFrom]
    split
    · exact ih h.2
    · simpa [Ne.symm h.1] using ih h.2

/-- Nor does a reference. -/
theorem usages_of_no_dollar (h : '$' ∉ codeMask t) : usages t = [] := by
  rw [List.eq_nil_iff_forall_not_mem]
  intro e he
  obtain ⟨name, hslice, -⟩ := (convertUsages_eq t).1.usage e he
  apply h
  have hmem : '$' ∈ slice (codeMask t) e.1.start e.1.stop := by
    rw [hslice]
    exact List.mem_cons_self
  exact List.mem_of_mem_drop (List.mem_of_mem_take hmem)

/-! ## Plain sheets -/

/-- **The code of the sheet shows nothing that a pass looks for.** Its comments may hold anything, and its
strings anything but an asset address. -/
structure PlainSheet (t : Text) : Prop where
  references : '$' ∉ codeMask t
  definitions : has (codeMask t) "@mixin".toList = false
  includes : has (codeMask t) "@include".toList = false
  imports : has (codeMask t) "@import".toList = false
  helpers : HelperCall.find t = []
  addresses : has (commentMask t) "url(".toList = false

instance (t : Text) : Decidable (PlainSheet t) :=
  decidable_of_iff
    ('$' ∉ codeMask t ∧ has (codeMask t) "@mixin".toList = false ∧
      has (codeMask t) "@include".toList = false ∧ has (codeMask t) "@import".toList = false ∧
      HelperCall.find t = [] ∧ has (commentMask t) "url(".toList = false)
    ⟨fun ⟨h₁, h₂, h₃, h₄, h₅, h₆⟩ => ⟨h₁, h₂, h₃, h₄, h₅, h₆⟩,
      fun ⟨h₁, h₂, h₃, h₄, h₅, h₆⟩ => ⟨h₁, h₂, h₃, h₄, h₅, h₆⟩⟩

/-- **No pass finds anything in a plain sheet.** -/
theorem PlainSheet.finished (h : PlainSheet t) (hosts : AssetHosts) : Finished hosts t where
  declarations := findFrom_of_no_dollar h.references
  usages := by
    rw [(convertUsages_eq t).2, usages_of_no_dollar h.references]
    rfl
  addresses := edits_of_no_address hosts h.addresses
  helpers := h.helpers
  definitions := find_of_no_definition h.definitions
  includes := find_of_no_include h.includes
  imports := find_of_no_import h.imports

/-- A sheet within the limit that shows a byte is not refused. -/
theorem refusal?_eq_none {o : ConversionOptions} (shown : ∃ x ∈ t, x ≠ ' ' ∧ x ≠ '\t' ∧ x ≠ '\r' ∧ x ≠ '\n')
    (fits : t.length ≤ o.maxFileSizeBytes) : o.refusal? t = none := by
  obtain ⟨x, hx, hspace, htab, hreturn, hfeed⟩ := shown
  unfold ConversionOptions.refusal?
  rw [if_neg, if_neg (Nat.not_lt.2 fits)]
  intro hall
  have hblank := List.all_eq_true.1 hall x hx
  simp [hspace, htab, hreturn, hfeed] at hblank

/-- **A plain sheet comes through a full run untouched**, apart from being tidied, and nothing is counted. The
run gives no result only if it asks a compiler and the compiler breaks down. -/
theorem process_plain {o : ConversionOptions} (full : o.mode = .full) (compiler : Option (Compiler σ))
    {content : Text} (fileName : Text) (world : σ)
    (shown : ∃ x ∈ content, x ≠ ' ' ∧ x ≠ '\t' ∧ x ≠ '\r' ∧ x ≠ '\n')
    (fits : content.length ≤ o.maxFileSizeBytes) (plain : PlainSheet content) :
    (∃ p notes, (process o compiler content fileName world).1 = .ok (p, notes) ∧
      p.output = clean content ∧ p.counters = {}) ∨
    ∃ c message w, o.compiler? compiler = some c ∧ (c.compile content w).1 = .error message ∧
      (process o compiler content fileName world).1 = .error message := by
  have hstart : Finished o.hosts (Conversion.start content fileName).content := plain.finished o.hosts
  obtain ⟨hcontent, hcounters⟩ := hstart.runPasses rfl o.layout_notMem_passes
  have hsame : (o.converted content fileName).content = content := hcontent
  have hzero : (o.converted content fileName).counters = {} := hcounters
  rcases process_full full compiler fileName world (refusal?_eq_none shown fits) with
    ⟨p, notes, hrun, houtput, hcounts⟩ | ⟨c, message, w, hasked, hbroken, hrun⟩
  · refine .inl ⟨p, notes, hrun, ?_, ?_⟩
    · rw [houtput, hsame]
    · rw [hcounts, hzero]
  · rw [hsame] at hbroken
    exact .inr ⟨c, message, w, hasked, hbroken, hrun⟩

/-- A plain sheet whose comment and string are full of what the passes look for. -/
def quotingSheet : Text :=
  "/* $a: 1; @include m; url(../images/a.png) */\n.b::after \x7b content: \"@import $c\"; \x7d  \n".toList

theorem process_quotingSheet :
    (∃ x ∈ quotingSheet, x ≠ ' ' ∧ x ≠ '\t' ∧ x ≠ '\r' ∧ x ≠ '\n') ∧
    quotingSheet.length ≤ ({} : ConversionOptions).maxFileSizeBytes ∧ PlainSheet quotingSheet ∧
    ∃ p notes, (process {} none quotingSheet [] ()).1 = .ok (p, notes) ∧
      p.output = clean quotingSheet ∧ p.counters = {} := by
  have hshown : ∃ x ∈ quotingSheet, x ≠ ' ' ∧ x ≠ '\t' ∧ x ≠ '\r' ∧ x ≠ '\n' := ⟨'/', by decide, by decide⟩
  have hfits : quotingSheet.length ≤ ({} : ConversionOptions).maxFileSizeBytes := by decide +kernel
  have hplain : PlainSheet quotingSheet := by decide +kernel
  refine ⟨hshown, hfits, hplain, ?_⟩
  rcases process_plain (o := {}) rfl (none : Option (Compiler Unit)) [] () hshown hfits hplain with
    hresult | ⟨c, message, w, hasked, -⟩
  · exact hresult
  · cases hasked

end Flatsheet
