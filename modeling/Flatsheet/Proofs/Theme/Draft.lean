import Flatsheet.Proofs.Conversion.Run
import Flatsheet.Proofs.System.Growth
import Flatsheet.Theme.Migration
import Mathlib.Data.List.Basic

/-!
# `Proofs.Theme.Draft` — a group before and after its file is written

The conversion of a group first reads and then writes. What it has come to before it writes is its `Draft`,
which only reads the tree; carrying out the draft changes the tree and makes the rest of the summary
(`convertGroup_eq`). `Drafted` says what a draft holds (`drafted`), and `Draft.carryOut` what is made of it.

The style sheets that a group reads are in a directory that is there already, under names that no group
writes. Files that groups write do not change them (`readSources_grown`).
-/

namespace Flatsheet.Theme

open Text FileTree Flatsheet.Path

/-! ## The names of a theme -/

theorem isName_output : ∀ g ∈ SourceGroup.all, IsName g.output := by decide

theorem isName_source : ∀ g ∈ SourceGroup.all, ∀ n ∈ g.sources, IsName n := by decide

/-- No group writes what another one reads. -/
theorem source_not_written : ∀ g ∈ SourceGroup.all, ∀ n ∈ g.sources, ∀ h ∈ SourceGroup.all,
    n ≠ h.output ∧ n ≠ temporaryName h.output := by decide

/-- Two groups do not write under the same name. -/
theorem outputs_apart : ∀ g ∈ SourceGroup.all, ∀ h ∈ SourceGroup.all, g ≠ h →
    g.output ≠ h.output ∧ g.output ≠ temporaryName h.output ∧
      temporaryName g.output ≠ h.output ∧ temporaryName g.output ≠ temporaryName h.output := by
  decide

/-- The locations that writing the file of a group can change. -/
def spots (o : MigrationOptions) (t : FileTree) (g : SourceGroup) : List Location :=
  t.spotsOf o.dest g.output

/-- The locations that writing the files of all groups can change. -/
def allSpots (o : MigrationOptions) (t : FileTree) : List Location := SourceGroup.all.flatMap (spots o t)

/-! ## Drafts -/

/-- What a group has come to before its file is written. -/
inductive Draft
  /-- There is nothing to write. -/
  | settled (result : GroupResult)
  /-- This content is to be written. The summary lacks only what comes of that; `flawless` is what it says of
  success if the file can be written. -/
  | ready (f : FileSummary) (content : Text) (flawless : Bool) (notes : List Note)

/-- The draft of a group whose style sheets have been processed. -/
def draftProcessed (s : Settings) (o : MigrationOptions) (g : SourceGroup) (f : FileSummary)
    (p : Processed) (notes : List Note) (t : FileTree) : Draft :=
  if !p.success then .settled (.ok (some f), notes)
  else
    let a := finishOutput s o g p.output t
    let f := { f with fragments := a.files }
    match a.failure with
    | some cause =>
      .settled (.ok (some { f with
        errors := f.errors ++ ["brand fragments: ".toList ++ cause.message] }), notes)
    | none =>
      .ready f (endLine a.content) (p.refusal.isNone && (!s.strictMode || p.errors.isEmpty)) notes

/-- The texts of the style sheets of a group, merged. -/
def sourceText (o : MigrationOptions) (g : SourceGroup) (t : FileTree) : Text :=
  combine ((readSources (styleDirectory o.source) t g.sources).map (·.2))

/-- What a group has come to when its style sheets have been read. -/
inductive Reading
  /-- There is nothing to write. -/
  | settled (result : GroupResult)
  /-- The text has been processed. The summary lacks what comes of the fragments and of writing. -/
  | processed (f : FileSummary) (p : Processed) (notes : List Note)

/-- Reads the style sheets of a group and processes them. -/
def reading (s : Settings) (o : MigrationOptions) (g : SourceGroup) (t : FileTree) : Reading :=
  let sources := readSources (styleDirectory o.source) t g.sources
  if sources.isEmpty then .settled (.ok none, [])
  else
    let f : FileSummary :=
      { group := g.name, sources := sources.map (·.1), output := join o.dest g.output }
    let first := migrationNote .info g.name
      ("converting ".toList ++ Text.ofNat sources.length ++ " file(s) into ".toList ++ g.output)
    match (process (.ofSettings s) (none : Option (Check.Compiler Unit)) (sourceText o g t) g.output ()).1 with
    | .error message => .settled (.error message, [first])
    | .ok (p, notes) => .processed (f.ofProcessed p) p (first :: notes)

/-- The draft of a group. -/
def draft (s : Settings) (o : MigrationOptions) (g : SourceGroup) (t : FileTree) : Draft :=
  match reading s o g t with
  | .settled result => .settled result
  | .processed f p notes => draftProcessed s o g f p notes t

/-- A summary with what came of writing the file. -/
def FileSummary.afterWriting (f : FileSummary) (content : Text) (flawless : Bool) :
    Except WriteError Unit → FileSummary
  | .error cause => { f with errors := f.errors ++ [cause.message] }
  | .ok () => { f with written := true, outputBytes := content.length, success := flawless }

/-- What there is to say about the writing of the file. -/
def FileSummary.writingNote (f : FileSummary) (name : Text) : Except WriteError Unit → Note
  | .error cause => migrationNote .error name cause.message
  | .ok () => migrationNote .info name ("wrote ".toList ++ f.output)

/-- A draft is carried out by writing the file. -/
def Draft.carryOut (name : Text) : Draft → FileTree → GroupResult × FileTree
  | .settled result, t => (result, t)
  | .ready f content flawless notes, t =>
    let (verdict, t) := t.writeFile f.output content
    ((.ok (some (f.afterWriting content flawless verdict)), notes ++ [f.writingNote name verdict]), t)

theorem writeGroup_eq (s : Settings) (o : MigrationOptions) (g : SourceGroup) (f : FileSummary)
    (p : Processed) (notes : List Note) (t : FileTree) :
    ((.ok (some (writeGroup s o g f p t).1), notes ++ (writeGroup s o g f p t).2.1),
        (writeGroup s o g f p t).2.2) =
      (draftProcessed s o g f p notes t).carryOut g.name t := by
  unfold writeGroup draftProcessed
  by_cases hs : p.success
  · simp only [hs, Bool.not_true, Bool.false_eq_true, if_false]
    cases hfailure : (finishOutput s o g p.output t).failure with
    | some cause => simp [Draft.carryOut]
    | none =>
      unfold Draft.carryOut
      dsimp only
      cases hw : t.writeFile f.output (endLine (finishOutput s o g p.output t).content) with
      | mk verdict u =>
        cases verdict with
        | error cause => rfl
        | ok => rfl
  · simp [hs, Draft.carryOut]

/-- **A group is converted by drafting it and carrying out the draft.** -/
theorem convertGroup_eq (s : Settings) (o : MigrationOptions) (g : SourceGroup) (t : FileTree) :
    convertGroup s o g t = (draft s o g t).carryOut g.name t := by
  unfold convertGroup draft reading sourceText
  dsimp only
  split
  · rfl
  · cases hp : (process (.ofSettings s) (none : Option (Check.Compiler Unit))
        (combine ((readSources (styleDirectory o.source) t g.sources).map (·.2))) g.output ()).1 with
    | error message => rfl
    | ok result => exact writeGroup_eq ..

/-! ## What a draft holds -/

/-- A text with fragments from a directory appended, one after the other. -/
def withFragments (directory : Text) (t : FileTree) (names : List Text) (content : Text) :
    Except ReadError Text :=
  names.foldlM (fun c n =>
    (t.read (join directory n)).map fun text => endLine c ++ '\n' :: trim text ++ ['\n']) content

/-- The directory of the fragments of a brand. -/
def fragmentDirectory (s : Settings) (o : MigrationOptions) : Text := join s.resourceDir (lower o.brand)

/-- The names of the fragments that a group may get. -/
def fragmentNames (o : MigrationOptions) (g : SourceGroup) : List Text :=
  if g.name = "inside".toList then (BrandFragment.ofBrand o.brand).map (·.file) else []

theorem appendAll_spec (directory : Text) (t : FileTree) (a : Appended) (fs : List BrandFragment) :
    ∃ names, names.Sublist (fs.map (·.file)) ∧ (appendAll directory t a fs).files = a.files ++ names ∧
      withFragments directory t names a.content = .ok (appendAll directory t a fs).content := by
  induction fs generalizing a with
  | nil => exact ⟨[], List.Sublist.slnil, by simp [appendAll], rfl⟩
  | cons f fs ih =>
    unfold appendAll
    split
    · obtain ⟨names, hnames, hfiles, hcontent⟩ := ih a
      exact ⟨names, hnames.cons f.file, hfiles, hcontent⟩
    · cases hread : t.read (join directory f.file) with
      | error cause => exact ⟨[], List.nil_sublist _, by simp, rfl⟩
      | ok text =>
        dsimp only
        obtain ⟨names, hnames, hfiles, hcontent⟩ := ih
          { a with
            content := endLine a.content ++ '\n' :: trim text ++ ['\n']
            files := a.files ++ [f.file] }
        refine ⟨f.file :: names, hnames.cons_cons f.file, ?_, ?_⟩
        · rw [hfiles, List.append_assoc]
          rfl
        · unfold withFragments at hcontent ⊢
          rw [List.foldlM_cons, hread]
          exact hcontent

/-- **The text that a group is about to write is the processed text with the fragments it lists.** -/
theorem finishOutput_spec (s : Settings) (o : MigrationOptions) (g : SourceGroup) (output : Text)
    (t : FileTree) :
    (finishOutput s o g output t).files.Sublist (fragmentNames o g) ∧
      withFragments (fragmentDirectory s o) t (finishOutput s o g output t).files output =
        .ok (finishOutput s o g output t).content := by
  unfold finishOutput fragmentNames
  by_cases hname : g.name = "inside".toList
  · by_cases hbrand : o.brand.isEmpty
    · simp only [hname, hbrand, Bool.not_true, Bool.and_false, Bool.false_eq_true, if_false, if_true]
      exact ⟨List.nil_sublist _, rfl⟩
    · simp only [hname, hbrand, Bool.not_false, decide_true, Bool.and_true, if_true]
      obtain ⟨names, hnames, hfiles, hcontent⟩ :=
        appendAll_spec (fragmentDirectory s o) t { content := output } (BrandFragment.ofBrand o.brand)
      unfold appendFragments
      rw [fragmentDirectory] at hfiles hcontent ⊢
      rw [hfiles]
      exact ⟨hnames, hcontent⟩
  · simp only [hname, decide_false, Bool.false_and, Bool.false_eq_true, if_false]
    exact ⟨List.nil_sublist _, rfl⟩

/-- What the summary of a group tells, whatever becomes of the file: which style sheets were read, and how
their text was processed. -/
structure Described (s : Settings) (o : MigrationOptions) (g : SourceGroup) (t : FileTree) (p : Processed)
    (f : FileSummary) : Prop where
  processed : ∃ notes, process (.ofSettings s) (none : Option (Check.Compiler Unit)) (sourceText o g t)
    g.output () = (.ok (p, notes), ())
  group : f.group = g.name
  sources : f.sources = (readSources (styleDirectory o.source) t g.sources).map (·.1)
  output : f.output = join o.dest g.output
  inputBytes : f.inputBytes = (sourceText o g t).length
  counters : f.counters = p.counters
  fragments : f.fragments.Sublist (fragmentNames o g)

/-- A summary before its file is written. -/
structure FileSummary.Unwritten (f : FileSummary) : Prop where
  success : f.success = false
  written : f.written = false
  outputBytes : f.outputBytes = 0

/-- What a draft holds. -/
inductive Drafted (s : Settings) (o : MigrationOptions) (g : SourceGroup) (t : FileTree) : Draft → Prop
  | nothing (empty : readSources (styleDirectory o.source) t g.sources = []) :
      Drafted s o g t (.settled (.ok none, []))
  | kept {p : Processed} {f : FileSummary} {notes : List Note} (described : Described s o g t p f)
      (unwritten : f.Unwritten) : Drafted s o g t (.settled (.ok (some f), notes))
  | ready {p : Processed} {f : FileSummary} {body : Text} {notes : List Note}
      (described : Described s o g t p f) (unwritten : f.Unwritten) (success : p.success = true)
      (appended : withFragments (fragmentDirectory s o) t f.fragments p.output = .ok body) :
      Drafted s o g t
        (.ready f (endLine body) (p.refusal.isNone && (!s.strictMode || p.errors.isEmpty)) notes)

theorem drafted_of_described {s : Settings} {o : MigrationOptions} {g : SourceGroup} {t : FileTree}
    {p : Processed} {f : FileSummary} (described : Described s o g t p f) (unwritten : f.Unwritten)
    (notes : List Note) : Drafted s o g t (draftProcessed s o g f p notes t) := by
  obtain ⟨hfiles, hcontent⟩ := finishOutput_spec s o g p.output t
  unfold draftProcessed
  by_cases hs : p.success
  · simp only [hs, Bool.not_true, Bool.false_eq_true, if_false]
    cases (finishOutput s o g p.output t).failure with
    | some cause =>
      exact .kept { described with fragments := hfiles } ⟨unwritten.1, unwritten.2, unwritten.3⟩
    | none =>
      exact .ready { described with fragments := hfiles } ⟨unwritten.1, unwritten.2, unwritten.3⟩ hs hcontent
  · simp only [hs, Bool.not_false, if_true]
    exact .kept described unwritten

/-- **The draft of a group** holds the processed text of its style sheets and tells of them. -/
theorem drafted (s : Settings) (o : MigrationOptions) (g : SourceGroup) (t : FileTree) :
    Drafted s o g t (draft s o g t) := by
  have hcompiler : (ConversionOptions.ofSettings s).compiler? (none : Option (Check.Compiler Unit)) = none := rfl
  obtain ⟨p, notes, hp⟩ := process_answers hcompiler (sourceText o g t) g.output ()
  unfold draft reading
  dsimp only
  by_cases hnone : (readSources (styleDirectory o.source) t g.sources).isEmpty
  · rw [if_pos hnone]
    exact .nothing (List.isEmpty_iff.1 hnone)
  · rw [if_neg hnone, hp]
    refine drafted_of_described ⟨⟨notes, hp⟩, rfl, rfl, rfl, ?_, rfl, List.nil_sublist _⟩ ⟨rfl, rfl, rfl⟩ _
    exact inputBytes_of_process (congrArg Prod.fst hp)

/-! ## Drafts in a tree that has grown -/

theorem readSources_eq (directory : Text) (t : FileTree) (sources : List Text) :
    readSources directory t sources =
      sources.filterMap fun n => (t.fileText? (join directory n)).map (n, ·) := by
  unfold readSources
  apply List.filterMap_congr
  intro n _
  rw [fileText?_eq_read]
  dsimp only
  split
  · rfl
  · rfl

/-- No spot is the location of a style sheet. -/
theorem source_not_mem_spots {g : SourceGroup} (hg : g ∈ SourceGroup.all) {n : Text} (hn : n ∈ g.sources)
    (o : MigrationOptions) (t : FileTree) (directory : Location) :
    directory ++ [n] ∉ allSpots o t := by
  intro hmem
  obtain ⟨h, hh, hmem⟩ := List.mem_flatMap.1 hmem
  obtain ⟨hne, hne'⟩ := source_not_written g hg n hn h hh
  simp only [spots, spotsOf, List.mem_cons, List.not_mem_nil, or_false] at hmem
  rcases hmem with hmem | hmem
  · exact hne (List.singleton_inj.1 (List.append_inj_right' hmem rfl))
  · exact hne' (List.singleton_inj.1 (List.append_inj_right' hmem rfl))

/-- **What groups write does not change the style sheets of a theme.** -/
theorem readSources_grown {o : MigrationOptions} {made : List Location} {t t' : FileTree}
    (hd : t.isDirectory (styleDirectory o.source) = true) (h : Grown made (allSpots o t) t t')
    {g : SourceGroup} (hg : g ∈ SourceGroup.all) :
    readSources (styleDirectory o.source) t' g.sources =
      readSources (styleDirectory o.source) t g.sources := by
  rw [readSources_eq, readSources_eq]
  apply List.filterMap_congr
  intro n hn
  rw [h.fileText?_join hd (isName_source g hg n hn) (source_not_mem_spots hg hn o t _)]

theorem reading_congr {s : Settings} {o : MigrationOptions} {g : SourceGroup} {t t' : FileTree}
    (hsources : readSources (styleDirectory o.source) t' g.sources =
      readSources (styleDirectory o.source) t g.sources) : reading s o g t' = reading s o g t := by
  unfold reading sourceText
  rw [hsources]

theorem draftProcessed_congr {s : Settings} {o : MigrationOptions} {g : SourceGroup} {t t' : FileTree}
    (hfinish : ∀ output, finishOutput s o g output t' = finishOutput s o g output t) (f : FileSummary)
    (p : Processed) (notes : List Note) :
    draftProcessed s o g f p notes t' = draftProcessed s o g f p notes t := by
  unfold draftProcessed
  rw [hfinish]

end Flatsheet.Theme
