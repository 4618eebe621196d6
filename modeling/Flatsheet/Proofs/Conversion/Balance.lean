import Flatsheet.Proofs.Style.AssetAddresses

/-!
# `Proofs.Conversion.Balance` — passes and the block structure of a sheet

Each pass cuts stretches out of a sheet and puts pieces in. A pass is careful with a sheet if what it cuts
out and what it puts in is whole, and fits where it is put (`Pass.Careful`). Then the braces of the sheet pair
up afterwards exactly if they did before (`Pass.Careful.balanced`), and so it is with all passes one after the
other (`balanced_runPasses`).

Not every pass is careful with every sheet. The arguments of a call are split at their commas without regard
to comments, so half a comment can take the place of a call.

* `balanced_hoist`, `balanced_exchangeRounds`: variables; calls and includes
* `Pass.Careful.balanced`, `balanced_runPasses`: a pass, and the run of them
-/

namespace Flatsheet

open Text Style Check Mask

variable {σ : Type} {hosts : AssetHosts} {t : Text} {c : Conversion}

/-! ## Findings -/

/-- **Cutting out what a scanner of the code mask finds**, if each finding ends in a byte that is not
blank. -/
theorem balanced_eraseFound {α : Type} {found : List α} {span : α → Span}
    (apart : Apart (codeMask t) (found.map span))
    (solid : ∀ a ∈ found, ∃ x, byteBefore (codeMask t) (span a).stop = some x ∧ isBlank x = false)
    (h : ∀ a ∈ found, Erasure t (span a)) :
    Balanced (eraseStatements t (found.map span)) ↔ Balanced t := by
  apply balanced_eraseStatements (apart_of_codeMask apart)
  · intro s hs
    obtain ⟨a, ha, rfl⟩ := List.mem_map.1 hs
    obtain ⟨x, hx, hblank⟩ := solid a ha
    exact byteBefore_of_codeMask hx hblank
  · intro s hs
    obtain ⟨a, ha, rfl⟩ := List.mem_map.1 hs
    exact h a ha

/-! ## Variables -/

/-- The root block is whole if its properties are. -/
theorem whole_rootBlock {vars : List Variable} (h : ∀ v ∈ vars, Whole v.property) :
    Whole (rootBlock vars) := by
  have hproperties : Whole (vars.flatMap Variable.property) := by
    induction vars with
    | nil => exact whole_nil
    | cons v vars ih =>
      rw [List.flatMap_cons]
      exact (h v List.mem_cons_self).append (ih fun w hw => h w (List.mem_cons_of_mem v hw))
  exact hproperties.enclose (k := 1) (by decide) (by decide) (by decide) (by decide)

/-- **Hoisting is careful**: the declarations can be cut out, and the properties are whole. -/
theorem balanced_hoist (declarations : ∀ d ∈ Declaration.find t, Erasure t d.span)
    (properties : ∀ v ∈ (hoist t).vars, Whole v.property) : Balanced (hoist t).content ↔ Balanced t := by
  obtain ⟨hapart, hsolid⟩ := Declaration.find_apart t
  have herased : Balanced (eraseStatements t ((Declaration.find t).map (·.span))) ↔ Balanced t :=
    balanced_eraseFound hapart (fun d hd => ⟨';', hsolid d hd, rfl⟩) declarations
  have hbody := (balanced_convertUsages (eraseStatements t ((Declaration.find t).map (·.span)))).trans herased
  have hcontent : (hoist t).content = if (hoist t).vars.isEmpty
      then (convertUsages (eraseStatements t ((Declaration.find t).map (·.span)))).1
      else rootBlock (hoist t).vars ++
        trimLeft (convertUsages (eraseStatements t ((Declaration.find t).map (·.span)))).1 := rfl
  rw [hcontent]
  split
  · exact hbody
  · have hblock := whole_rootBlock properties
    have htrimmed := balanced_reaches
      (reaches_trimLeft (convertUsages (eraseStatements t ((Declaration.find t).map (·.span)))).1)
    have hput := balanced_drop rests_nil hblock
      (b := trimLeft (convertUsages (eraseStatements t ((Declaration.find t).map (·.span)))).1)
    exact hput.trans (htrimmed.symm.trans hbody)

/-! ## Calls and includes -/

/-- All outermost stretches exchanged at once, in at most so many rounds. -/
def exchangeRounds (find : Text → List (Span × Text)) : Nat → Text → Text
  | 0, t => t
  | rounds + 1, t =>
    if (find t).isEmpty then t else exchangeRounds find rounds (replaceSpans t (find t))

/-- In each round the pieces fit. -/
def FitRounds (find : Text → List (Span × Text)) : Nat → Text → Prop
  | 0, _ => True
  | rounds + 1, t =>
    find t = [] ∨ (∀ e ∈ find t, Fits t e.1 e.2) ∧ FitRounds find rounds (replaceSpans t (find t))

instance decidableFitRounds (find : Text → List (Span × Text)) :
    (rounds : Nat) → (t : Text) → Decidable (FitRounds find rounds t)
  | 0, _ => isTrue trivial
  | rounds + 1, t =>
    have := decidableFitRounds find rounds (replaceSpans t (find t))
    inferInstanceAs (Decidable (_ ∨ _ ∧ _))

/-- What a scanner of the code mask finds lies apart, and each finding begins in code. -/
theorem edits_found {α : Type} {look : Cursor → Sighting α} {span : α → Span} {piece : α → Text}
    (hfound : ∀ c a n, c.At (codeMask t) → look c = .found a n →
      ((span a).start = c.pos ∧ (span a).stop = c.pos + n ∧ 0 < n ∧ c.pos + n ≤ (codeMask t).length) ∧
        ∃ x, (codeMask t)[c.pos]? = some x ∧ Leads x) :
    Apart t (((sweep look (codeMask t)).map fun a => (span a, piece a)).map (·.1)) ∧
      ∀ e ∈ (sweep look (codeMask t)).map fun a => (span a, piece a),
        Joins (t.take e.1.start) (t.drop e.1.start).head? := by
  have hspans : Spans look (codeMask t) span := fun c a n hc hlook => (hfound c a n hc hlook).1
  constructor
  · rw [List.map_map]
    exact apart_of_codeMask (sweep_apart hspans)
  · intro e he
    obtain ⟨a, ha, rfl⟩ := List.mem_map.1 he
    obtain ⟨c, n, hc, hlook⟩ := mem_sweep ha
    obtain ⟨⟨hstart, -⟩, x, hx, hlead⟩ := hfound c a n hc hlook
    rw [← hstart] at hx
    exact joins_of_leads hx hlead

/-- **Rounds of exchanges of what a scanner of the code mask finds.** -/
theorem balanced_exchangeRounds {find : Text → List (Span × Text)}
    (hfind : ∀ t, Apart t ((find t).map (·.1)) ∧
      ∀ e ∈ find t, Joins (t.take e.1.start) (t.drop e.1.start).head?)
    {rounds : Nat} (h : FitRounds find rounds t) :
    Balanced (exchangeRounds find rounds t) ↔ Balanced t := by
  induction rounds generalizing t with
  | zero => exact Iff.rfl
  | succ rounds ih =>
    rw [exchangeRounds]
    rcases h with hnone | ⟨hfits, hrest⟩
    · rw [hnone]
      exact Iff.rfl
    · obtain ⟨hapart, hbegins⟩ := hfind t
      have hround : Balanced (replaceSpans t (find t)) ↔ Balanced t :=
        balanced_replaceSpans hapart fun e he => ⟨hfits e he, hbegins e he⟩
      split
      · exact Iff.rfl
      · exact (ih hrest).trans hround

/-- The calls of colour functions, with their replacements. -/
def helperEdits (t : Text) : List (Span × Text) := (HelperCall.find t).map fun h => (h.span, h.replacement)

/-- The includes, with their replacements. -/
def includeEdits (t : Text) : List (Span × Text) :=
  (Include.find t).map fun i => (i.span, i.call.replacement)

theorem replaceHelperRounds_eq (rounds : Nat) (t : Text) :
    (replaceHelperRounds rounds t).1 = exchangeRounds helperEdits rounds t := by
  induction rounds generalizing t with
  | zero => rfl
  | succ rounds ih =>
    rw [replaceHelperRounds, exchangeRounds, helperEdits, List.isEmpty_map]
    split
    · rfl
    · exact ih _

theorem expandRounds_eq (rounds : Nat) (t : Text) :
    (expandRounds rounds t).1 = exchangeRounds includeEdits rounds t := by
  induction rounds generalizing t with
  | zero => rfl
  | succ rounds ih =>
    rw [expandRounds, exchangeRounds, includeEdits, List.isEmpty_map]
    split
    · rfl
    · exact ih _

theorem helperEdits_found (t : Text) : Apart t ((helperEdits t).map (·.1)) ∧
    ∀ e ∈ helperEdits t, Joins (t.take e.1.start) (t.drop e.1.start).head? :=
  edits_found fun _ _ _ hc hlook => HelperCall.look_found hc hlook

theorem includeEdits_found (t : Text) : Apart t ((includeEdits t).map (·.1)) ∧
    ∀ e ∈ includeEdits t, Joins (t.take e.1.start) (t.drop e.1.start).head? :=
  edits_found fun _ _ _ hc hlook => Include.look_found hc hlook

/-! ## Definitions and imports -/

theorem balanced_removeDefinitions (h : ∀ m ∈ MixinDefinition.find t, Erasure t m.span) :
    Balanced (removeDefinitions t).1 ↔ Balanced t := by
  obtain ⟨hapart, hsolid⟩ := MixinDefinition.find_apart t
  exact balanced_eraseFound hapart (fun m hm => ⟨'}', hsolid m hm, rfl⟩) h

theorem balanced_removeImports (h : ∀ i ∈ Import.find t, Erasure t i.span) :
    Balanced (removeImports t).1 ↔ Balanced t := by
  obtain ⟨hapart, hsolid⟩ := Import.find_apart t
  exact balanced_eraseFound hapart hsolid h

/-! ## Passes -/

/-- **The pass is careful with the sheet**: what it cuts out and what it puts in is whole, and fits. -/
def Pass.Careful (hosts : AssetHosts) (t : Text) : Pass → Prop
  | .vars => (∀ d ∈ Declaration.find t, Erasure t d.span) ∧ ∀ v ∈ (hoist t).vars, Whole v.property
  | .paths => ∀ e ∈ hosts.edits t, Exchange t e.1 e.2
  | .helpers => FitRounds helperEdits (t.count '(' + t.count '$') t
  | .mixins => (∀ m ∈ MixinDefinition.find t, Erasure t m.span) ∧
      FitRounds includeEdits expansionLimit (removeDefinitions t).1
  | .imports => ∀ i ∈ Import.find t, Erasure t i.span
  | .layout => True

instance (hosts : AssetHosts) (t : Text) : (p : Pass) → Decidable (p.Careful hosts t)
  | .vars => inferInstanceAs (Decidable (_ ∧ _))
  | .paths => inferInstanceAs (Decidable (∀ e ∈ hosts.edits t, Exchange t e.1 e.2))
  | .helpers => inferInstanceAs (Decidable (FitRounds _ _ _))
  | .mixins => inferInstanceAs (Decidable (_ ∧ _))
  | .imports => inferInstanceAs (Decidable (∀ i ∈ Import.find t, Erasure t i.span))
  | .layout => isTrue trivial

/-- **A careful pass keeps the blocks of a sheet.** -/
theorem Pass.Careful.balanced {p : Pass} (h : p.Careful hosts c.content) :
    Balanced (p.apply hosts c).1.content ↔ Balanced c.content := by
  cases p with
  | vars =>
    obtain ⟨hcontent, -⟩ := apply_vars hosts c
    rw [hcontent]
    exact balanced_hoist h.1 h.2
  | paths =>
    obtain ⟨hcontent, -⟩ := apply_paths hosts c
    rw [hcontent]
    exact balanced_replaceSpans (addresses_apart hosts c.content) h
  | helpers =>
    obtain ⟨hcontent, -⟩ := apply_helpers hosts c
    rw [hcontent, replaceHelpers, replaceHelperRounds_eq]
    exact balanced_exchangeRounds helperEdits_found h
  | mixins =>
    obtain ⟨hcontent, -⟩ := apply_mixins hosts c
    have hexpanded : Balanced (expandIncludes (removeDefinitions c.content).1).1 ↔
        Balanced (removeDefinitions c.content).1 := by
      rw [expandIncludes, expandRounds_eq]
      exact balanced_exchangeRounds includeEdits_found h.2
    rw [hcontent]
    exact hexpanded.trans (balanced_removeDefinitions h.1)
  | imports =>
    obtain ⟨hcontent, -⟩ := apply_imports hosts c
    rw [hcontent]
    exact balanced_removeImports h
  | layout =>
    obtain ⟨hcontent, -⟩ := apply_layout hosts c
    rw [hcontent]
    exact (balanced_reaches (reaches_clean c.content)).symm

/-- **Each pass of the run is careful** with what the passes before it have left. -/
def CarefulRun (hosts : AssetHosts) : List Pass → Conversion → Prop
  | [], _ => True
  | p :: ps, c => p.Careful hosts c.content ∧ CarefulRun hosts ps (p.apply hosts c).1

instance decidableCarefulRun (hosts : AssetHosts) :
    (ps : List Pass) → (c : Conversion) → Decidable (CarefulRun hosts ps c)
  | [], _ => isTrue trivial
  | p :: ps, c =>
    have := decidableCarefulRun hosts ps (p.apply hosts c).1
    inferInstanceAs (Decidable (_ ∧ _))

/-- **So do careful passes one after the other.** -/
theorem balanced_runPasses {ps : List Pass} (h : CarefulRun hosts ps c) :
    Balanced (runPasses hosts ps c).1.content ↔ Balanced c.content := by
  induction ps generalizing c with
  | nil => exact Iff.rfl
  | cons p ps ih =>
    obtain ⟨hpass, hrest⟩ := h
    exact (ih hrest).trans hpass.balanced

/-! ## Runs -/

/-- **Processing keeps the blocks of a sheet** with which the passes are careful: if the braces of the sheet
pair up, so do those of the output of a full run. A full run without a compiler has an output. -/
theorem process_keeps_blocks {o : ConversionOptions} (full : o.mode = .full)
    (compiler : Option (Compiler σ)) (content fileName : Text) (world : σ)
    (careful : CarefulRun o.hosts o.passes (.start content fileName))
    (balanced : (checkSyntax content).1.balancedBraces = true) :
    (∀ p notes, (process o compiler content fileName world).1 = .ok (p, notes) →
      (checkSyntax p.output).1.balancedBraces = true) ∧
    (o.compiler? compiler = none →
      ∃ p notes, process o compiler content fileName world = (.ok (p, notes), world)) := by
  constructor
  · intro p notes hrun
    rcases output_of_process full hrun with houtput | houtput
    · rw [houtput]
      rfl
    · have hpasses : Balanced (o.converted content fileName).content ↔ Balanced content :=
        balanced_runPasses careful
      rw [houtput, balancedBraces_clean, balancedBraces_iff]
      exact hpasses.2 (balancedBraces_iff.1 balanced)
  · intro hnone
    exact process_answers hnone content fileName world

/-- A sheet in which each pass finds something. -/
def busySheet : Text :=
  ("@import \"b\";\n$c: red;\n@mixin m \x7b a: $c; \x7d\n.a \x7b\n  color: darken($c, 9%);\n" ++
    "  src: url(../images/a.png);\n  @include flexbox;\n\x7d\n").toList

theorem blocks_of_busySheet :
    ∃ p notes, process {} none busySheet [] () = (.ok (p, notes), ()) ∧
      (checkSyntax p.output).1.balancedBraces = true := by
  have hcareful : CarefulRun ({} : ConversionOptions).hosts ({} : ConversionOptions).passes
      (.start busySheet []) := by decide +kernel
  have hbalanced : (checkSyntax busySheet).1.balancedBraces = true := by decide +kernel
  obtain ⟨hkept, hanswers⟩ := process_keeps_blocks rfl none busySheet [] () hcareful hbalanced
  obtain ⟨p, notes, hrun⟩ := hanswers rfl
  exact ⟨p, notes, hrun, hkept p notes (congrArg Prod.fst hrun)⟩

/-- A sheet with a comma in a comment inside a call. -/
def commentSheet : Text := ".a \x7b\n  color: darken(/* base, dark */ $primary, 10%);\n\x7d\n".toList

/-- **The arguments of a call are split at a comma inside a comment.** The first argument is then half a
comment, which swallows what follows the call, with the brace that closes the block. -/
theorem comma_in_comment_opens_block :
    ∃ p notes, process {} none commentSheet [] () = (.ok (p, notes), ()) ∧ p.success = true ∧
      (checkSyntax commentSheet).1.balancedBraces = true ∧
      p.output = ".a \x7b\n  color: /* base;\n\x7d".toList ∧
      (checkSyntax p.output).1.balancedBraces = false := by
  have haccepted : ({} : ConversionOptions).refusal? commentSheet = none := by decide +kernel
  obtain ⟨p, notes, hrun, hsuccess, -, houtput, -⟩ :=
    process_accepted rfl rfl rfl rfl none [] () haccepted
  have hsheet : p.output = ".a \x7b\n  color: /* base;\n\x7d".toList := by
    rw [houtput]
    decide +kernel
  refine ⟨p, notes, hrun, hsuccess, ?_, hsheet, ?_⟩
  · decide +kernel
  · rw [hsheet]
    decide +kernel

end Flatsheet
