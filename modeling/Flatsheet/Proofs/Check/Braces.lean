import Flatsheet.Check.Validation
import Flatsheet.Proofs.Style.Layout

/-!
# `Proofs.Check.Braces` — how braces nest, a byte at a time

The brace check blanks the interpolations of a code mask and counts the braces that are left. What it
finds out can also be found out in one walk over the code mask, by an automaton that knows how many blocks
are open and how deep in an interpolation it is (`Nesting`). The walk can be cut anywhere
(`Nesting.after?_append`), which counting the braces of a whole text cannot.

* `braceIssues_eq_nil_iff`: the check finds nothing exactly if the walk ends outside all blocks.
* `Paired.loses_iff`, `balancedBraces_clean`: the blanks that tidying takes away make no difference.
-/

namespace Flatsheet.Check

open Text Style

variable {c : Char} {w w' t r : Text} {n m : Nesting} {d k pos : Nat}

/-! ## The walk -/

/-- How braces are nested at a place of a code mask. -/
structure Nesting where
  /-- The number of open blocks. -/
  depth : Nat := 0
  /-- The number of open braces of the interpolation around the place, zero outside interpolation. -/
  inside : Nat := 0
  /-- The byte before the place is a hash sign outside interpolation. -/
  hash : Bool := false
deriving DecidableEq, Repr

/-- The nesting after a byte. A closing brace outside all blocks is an excess. -/
def Nesting.next (n : Nesting) (c : Char) : Option Nesting :=
  if 0 < n.inside then
    if c = '{' then some ⟨n.depth, n.inside + 1, false⟩
    else if c = '}' then some ⟨n.depth, n.inside - 1, false⟩
    else some ⟨n.depth, n.inside, false⟩
  else if c = '{' then
    if n.hash then some ⟨n.depth, 1, false⟩ else some ⟨n.depth + 1, 0, false⟩
  else if c = '}' then
    if n.depth = 0 then none else some ⟨n.depth - 1, 0, false⟩
  else some ⟨n.depth, 0, c = '#'⟩

/-- The nesting after a piece of a code mask, unless there is an excess in it. -/
def Nesting.after? (n : Nesting) : Text → Option Nesting
  | [] => some n
  | c :: r => (n.next c).bind fun m => m.after? r

/-- **The braces of a code mask pair up**: all blocks are closed at its end. -/
def Paired (w : Text) : Prop := (Nesting.after? {} w).map (·.depth) = some 0

instance (w : Text) : Decidable (Paired w) := inferInstanceAs (Decidable (_ = _))

theorem Nesting.after?_append (n : Nesting) (a b : Text) :
    n.after? (a ++ b) = (n.after? a).bind fun m => m.after? b := by
  induction a generalizing n with
  | nil => rfl
  | cons c r ih =>
    rw [List.cons_append, after?, after?]
    cases n.next c with
    | none => rfl
    | some m => exact ih m

/-- A hash sign matters only before an opening brace. -/
theorem Nesting.depth_after?_congr (h : r.head? ≠ some '{') (d k : Nat) (x y : Bool) :
    ((⟨d, k, x⟩ : Nesting).after? r).map (·.depth) = ((⟨d, k, y⟩ : Nesting).after? r).map (·.depth) := by
  cases r with
  | nil => rfl
  | cons c r =>
    have hc : c ≠ '{' := by simpa using h
    rw [after?, after?]
    simp only [next, hc]
    rfl

/-! ## Counting -/

/-- The number of open blocks after a piece of a structural mask, unless there is an excess in it. -/
def levelAfter? (d : Nat) : Text → Option Nat
  | [] => some d
  | c :: r =>
    if c = '{' then levelAfter? (d + 1) r
    else if c = '}' then if d = 0 then none else levelAfter? (d - 1) r
    else levelAfter? d r

theorem levelAfter?_append (d : Nat) (a b : Text) :
    levelAfter? d (a ++ b) = (levelAfter? d a).bind fun k => levelAfter? k b := by
  induction a generalizing d with
  | nil => rfl
  | cons c r ih =>
    rw [List.cons_append, levelAfter?, levelAfter?]
    split
    · exact ih (d + 1)
    · split
      · split
        · rfl
        · exact ih (d - 1)
      · exact ih d

/-- Without an excess, what is open is what has been opened and not closed. -/
theorem levelAfter?_eq_some_iff : levelAfter? d w = some k ↔
    firstExcess? d pos w = none ∧ d + w.count '{' = k + w.count '}' := by
  induction w generalizing d pos with
  | nil => simp [levelAfter?, firstExcess?]
  | cons c r ih =>
    rw [levelAfter?, firstExcess?]
    by_cases hopen : c = '{'
    · rw [if_pos hopen, if_pos hopen, hopen, List.count_cons_self, List.count_cons_of_ne (by decide), ih]
      constructor
      · rintro ⟨h, hcount⟩
        exact ⟨h, by omega⟩
      · rintro ⟨h, hcount⟩
        exact ⟨h, by omega⟩
    · rw [if_neg hopen, if_neg hopen, List.count_cons_of_ne hopen]
      by_cases hclose : c = '}'
      · rw [if_pos hclose, if_pos hclose, hclose, List.count_cons_self]
        by_cases hd : d = 0
        · simp [hd]
        · rw [if_neg hd, if_neg hd, ih]
          constructor
          · rintro ⟨h, hcount⟩
            exact ⟨h, by omega⟩
          · rintro ⟨h, hcount⟩
            exact ⟨h, by omega⟩
      · rw [if_neg hclose, if_neg hclose, List.count_cons_of_ne hclose, ih]

theorem braceIssues_eq_nil_iff_level : braceIssues t = [] ↔ levelAfter? 0 (structuralMask t) = some 0 := by
  have hlevel : levelAfter? 0 (structuralMask t) = some 0 ↔ firstExcess? 0 0 (structuralMask t) = none ∧
      (structuralMask t).count '{' = (structuralMask t).count '}' := by
    rw [levelAfter?_eq_some_iff, Nat.zero_add, Nat.zero_add]
  rw [hlevel]
  simp only [braceIssues]
  generalize firstExcess? 0 0 (structuralMask t) = excess
  cases excess with
  | none => simp
  | some i => simp

/-! ## Interpolation -/

/-- A stretch of a mask that is blanked. Line feeds stay. -/
def blanked (w : Text) : Text := w.map fun c => if c = '\n' then c else ' '

/-- **The mask with its interpolations blanked**, a byte at a time; `inside` braces of an interpolation are open
at first. -/
def veil : Nat → Text → Text
  | _, [] => []
  | 0, '#' :: '{' :: r => ' ' :: ' ' :: veil 1 r
  | 0, c :: r => c :: veil 0 r
  | k + 1, c :: r =>
    (if c = '\n' then c else ' ') :: veil (if c = '{' then k + 2 else if c = '}' then k else k + 1) r

/-- Outside interpolation only a hash sign before a brace is blanked. -/
theorem veil_cons (h : ¬ (c = '#' ∧ r.head? = some '{')) : veil 0 (c :: r) = c :: veil 0 r := by
  rw [veil]
  rintro r' rfl rfl
  exact h ⟨rfl, rfl⟩

/-- An interpolation is blanked up to its end. -/
theorem veil_of_braceEnd {i : Nat} (h : braceEnd? (k + 1) r = some i) :
    veil (k + 1) r = blanked (r.take i) ++ veil 0 (r.drop i) := by
  induction r generalizing k i with
  | nil => cases h
  | cons c r ih =>
    rw [braceEnd?] at h
    rw [veil]
    split at h
    · next hc =>
      obtain ⟨j, hj, rfl⟩ := Option.map_eq_some_iff.1 h
      simp [hc, ih hj, blanked]
    · next hopen =>
      split at h
      · next hc =>
        split at h
        · next hone =>
          cases h
          have hzero : k = 0 := by omega
          simp [hc, hzero, blanked]
        · next hmore =>
          obtain ⟨j, hj, rfl⟩ := Option.map_eq_some_iff.1 h
          obtain ⟨k, rfl⟩ : ∃ l, k = l + 1 := ⟨k - 1, by omega⟩
          simp [hc, ih hj, blanked]
      · next hclose =>
        obtain ⟨j, hj, rfl⟩ := Option.map_eq_some_iff.1 h
        simp [hopen, hclose, ih hj, blanked]

/-- One that is never closed takes the rest of the mask. -/
theorem veil_of_no_braceEnd (h : braceEnd? (k + 1) r = none) : veil (k + 1) r = blanked r := by
  induction r generalizing k with
  | nil => rfl
  | cons c r ih =>
    rw [braceEnd?] at h
    rw [veil]
    split at h
    · next hc =>
      rw [Option.map_eq_none_iff] at h
      simp [hc, ih h, blanked]
    · next hopen =>
      split at h
      · next hc =>
        split at h
        · cases h
        · next hmore =>
          rw [Option.map_eq_none_iff] at h
          obtain ⟨k, rfl⟩ : ∃ l, k = l + 1 := ⟨k - 1, by omega⟩
          simp [hc, ih h, blanked]
      · next hclose =>
        rw [Option.map_eq_none_iff] at h
        simp [hopen, hclose, ih h, blanked]

theorem le_length_of_braceEnd {i : Nat} (h : braceEnd? k r = some i) : i ≤ r.length := by
  induction r generalizing k i with
  | nil => cases h
  | cons c r ih =>
    have hstep : ∀ {k' j : Nat}, braceEnd? k' r = some j → j + 1 ≤ (c :: r).length := by
      intro k' j hj
      have hle := ih hj
      rw [List.length_cons]
      omega
    rw [braceEnd?] at h
    split at h
    · obtain ⟨j, hj, rfl⟩ := Option.map_eq_some_iff.1 h
      exact hstep hj
    · split at h
      · split at h
        · cases h
          simp
        · obtain ⟨j, hj, rfl⟩ := Option.map_eq_some_iff.1 h
          exact hstep hj
      · obtain ⟨j, hj, rfl⟩ := Option.map_eq_some_iff.1 h
        exact hstep hj

/-- The piece of a mask from offset `pos` on, with the spans blanked. -/
def blankSpans (spans : List Span) (pos : Nat) (w : Text) : Text :=
  (w.zipIdx pos).map fun (c, i) => if c ≠ '\n' && spans.any (·.covers i) then ' ' else c

theorem blankSpans_cons (spans : List Span) (pos : Nat) (c : Char) (r : Text) :
    blankSpans spans pos (c :: r) =
      (if c ≠ '\n' && spans.any (·.covers pos) then ' ' else c) :: blankSpans spans (pos + 1) r := rfl

theorem blankSpans_append (spans : List Span) (pos : Nat) (a b : Text) :
    blankSpans spans pos (a ++ b) = blankSpans spans pos a ++ blankSpans spans (pos + a.length) b := by
  rw [blankSpans, List.zipIdx_append, List.map_append]
  rfl

/-- A span that ends before the piece blanks nothing of it. -/
theorem blankSpans_of_stop_le {s : Span} (spans : List Span) (h : s.stop ≤ pos) (w : Text) :
    blankSpans (s :: spans) pos w = blankSpans spans pos w := by
  induction w generalizing pos with
  | nil => rfl
  | cons c r ih =>
    have hcovers : s.covers pos = false := Span.covers_eq_false_iff.2 (.inr h)
    rw [blankSpans_cons, blankSpans_cons, ih (Nat.le_succ_of_le h), List.any_cons, hcovers,
      Bool.false_or]

/-- A stretch that a span covers is blanked. -/
theorem blankSpans_covered {spans : List Span} {s : Span} (hs : s ∈ spans) (hstart : s.start ≤ pos)
    (hstop : pos + w.length ≤ s.stop) : blankSpans spans pos w = blanked w := by
  induction w generalizing pos with
  | nil => rfl
  | cons c r ih =>
    rw [List.length_cons] at hstop
    have hcovers : spans.any (·.covers pos) = true :=
      List.any_eq_true.2 ⟨s, hs, Span.covers_iff.2 ⟨hstart, by omega⟩⟩
    rw [blankSpans_cons, hcovers, Bool.and_true, ih (by omega) (by omega)]
    by_cases hc : c = '\n'
    · simp [hc, blanked]
    · simp [hc, blanked]

theorem start_of_mem_interpolationsFrom {s : Span} (h : s ∈ interpolationsFrom pos w) : pos ≤ s.start := by
  fun_induction interpolationsFrom pos w with
  | case1 => cases h
  | case2 pos c r hash hend =>
    exact Nat.le_of_eq (congrArg Span.start (List.mem_singleton.1 h)).symm
  | case3 pos c r hash i hend ih =>
    rcases List.mem_cons.1 h with rfl | h
    · exact Nat.le_refl pos
    · have hle := ih h
      omega
  | case4 pos c r hash ih =>
    have hle := ih h
    omega

/-- **Blanking the interpolations of a mask can be done a byte at a time.** -/
theorem blankSpans_interpolations (pos : Nat) (w : Text) :
    blankSpans (interpolationsFrom pos w) pos w = veil 0 w := by
  fun_induction interpolationsFrom pos w with
  | case1 => rfl
  | case2 pos c r hash hend =>
    -- the interpolation takes the rest of the mask
    simp only [Bool.and_eq_true, decide_eq_true_eq] at hash
    obtain ⟨rfl, hhead⟩ := hash
    obtain ⟨r, rfl⟩ := List.head?_eq_some_iff.1 hhead
    rw [braceEnd?, if_pos rfl, Option.map_eq_none_iff] at hend
    rw [blankSpans_covered List.mem_cons_self (Nat.le_refl pos) (by simp; omega), veil, veil_of_no_braceEnd hend]
    rfl
  | case3 pos c r hash i hend ih =>
    -- the interpolation ends inside the mask
    have hle : i ≤ r.length := le_length_of_braceEnd hend
    simp only [Bool.and_eq_true, decide_eq_true_eq] at hash
    obtain ⟨rfl, hhead⟩ := hash
    have hlength : ('#' :: r.take i).length = 1 + i := by
      rw [List.length_cons, List.length_take, Nat.min_eq_left hle, Nat.add_comm]
    have hcut : '#' :: r = ('#' :: r.take i) ++ r.drop i := by
      rw [List.cons_append, List.take_append_drop]
    have hfirst : blankSpans (⟨pos, pos + 1 + i⟩ :: interpolationsFrom (pos + 1 + i) (r.drop i)) pos
        ('#' :: r.take i) = blanked ('#' :: r.take i) :=
      blankSpans_covered List.mem_cons_self (Nat.le_refl pos) (by rw [hlength]; simp; omega)
    conv => lhs; rw [hcut]
    rw [blankSpans_append, hfirst, hlength, ← Nat.add_assoc, blankSpans_of_stop_le _ (Nat.le_refl _), ih]
    obtain ⟨r, rfl⟩ := List.head?_eq_some_iff.1 hhead
    rw [braceEnd?, if_pos rfl] at hend
    obtain ⟨j, hj, rfl⟩ := Option.map_eq_some_iff.1 hend
    rw [veil, veil_of_braceEnd hj]
    simp [blanked]
  | case4 pos c r hash ih =>
    have huncovered : (interpolationsFrom (pos + 1) r).any (·.covers pos) = false := by
      rw [List.any_eq_false]
      intro s hs
      have hle := start_of_mem_interpolationsFrom hs
      rw [Span.covers_iff]
      omega
    rw [blankSpans_cons, huncovered, Bool.and_false, if_neg Bool.false_ne_true, ih, veil_cons]
    simpa using hash

theorem structuralMask_eq (t : Text) : structuralMask t = veil 0 (codeMask t) :=
  blankSpans_interpolations 0 (codeMask t)

/-- **The walk over a code mask counts the braces that are left when the interpolations are blanked.** -/
theorem levelAfter?_veil (d k : Nat) (w : Text) :
    levelAfter? d (veil k w) = ((⟨d, k, false⟩ : Nesting).after? w).map (·.depth) := by
  fun_induction veil k w generalizing d with
  | case1 k => rfl
  | case2 r ih => simpa [Nesting.after?, Nesting.next, levelAfter?] using ih d
  | case3 c r hash ih =>
    rw [levelAfter?, Nesting.after?, Nesting.next, if_neg (Nat.lt_irrefl 0)]
    by_cases hopen : c = '{'
    · simp [hopen, ih]
    · by_cases hclose : c = '}'
      · by_cases hd : d = 0
        · simp [hclose, hd]
        · simp [hclose, hd, ih]
      · rw [if_neg hopen, if_neg hopen, if_neg hclose, if_neg hclose, ih, Option.bind_some]
        by_cases hc : c = '#'
        · -- no brace follows the hash sign, so it opens nothing
          have hhead : r.head? ≠ some '{' := by
            intro hhead
            obtain ⟨r', rfl⟩ := List.head?_eq_some_iff.1 hhead
            exact hash r' hc rfl
          exact Nesting.depth_after?_congr hhead d 0 _ _
        · simp [hc]
  | case4 k c r ih =>
    -- a blank in the place of a byte leaves the depth as it is
    have hblank : levelAfter? d ((if c = '\n' then c else ' ') ::
        veil (if c = '{' then k + 2 else if c = '}' then k else k + 1) r) =
        levelAfter? d (veil (if c = '{' then k + 2 else if c = '}' then k else k + 1) r) := by
      by_cases hc : c = '\n'
      · simp [hc, levelAfter?]
      · simp [hc, levelAfter?]
    rw [hblank, ih, Nesting.after?, Nesting.next, if_pos (Nat.succ_pos k)]
    by_cases hopen : c = '{'
    · simp [hopen]
    · by_cases hclose : c = '}'
      · simp [hclose]
      · simp [hopen, hclose]

/-! ## The kinds of issues -/

theorem kind_of_braceIssues {i : Issue} (h : i ∈ braceIssues t) : i.kind = .unbalancedBraces := by
  simp only [braceIssues] at h
  split at h
  · rw [List.mem_singleton.1 h]
  · cases h

theorem kind_of_stringIssues {i : Issue} (h : i ∈ stringIssues t) : i.kind = .unterminatedString := by
  obtain ⟨⟨line, j⟩, -, hline⟩ := List.mem_filterMap.1 h
  dsimp only at hline
  split at hline
  · cases hline
    rfl
  · cases hline

theorem kind_of_statementIssues {i : Issue} (h : i ∈ statementIssues t) :
    i.kind = .unbalancedParentheses ∨ i.kind = .emptyPropertyName ∨ i.kind = .emptyPropertyValue := by
  obtain ⟨s, -, hs⟩ := List.mem_flatMap.1 h
  simp only [Statement.issues] at hs
  split at hs
  · cases hs
  · rcases List.mem_append.1 hs with hs | hs
    · split at hs
      · rw [List.mem_singleton.1 hs]
        exact .inl rfl
      · cases hs
    · split at hs
      · cases hs
      · split at hs
        · rw [List.mem_singleton.1 hs]
          exact .inr (.inl rfl)
        · split at hs
          · rw [List.mem_singleton.1 hs]
            exact .inr (.inr rfl)
          · cases hs

theorem kind_of_pseudoElementIssues {i : Issue} (h : i ∈ pseudoElementIssues t) :
    i.kind = .unknownPseudoElement := by
  obtain ⟨⟨j, name⟩, -, hname⟩ := List.mem_filterMap.1 h
  dsimp only at hname
  split at hname
  · cases hname
  · cases hname
    rfl

theorem kind_of_redeclarationIssues {i : Issue} (h : i ∈ redeclarationIssues t) :
    i.kind = .variableRedeclared := by
  obtain ⟨d, -, rfl⟩ := List.mem_map.1 h
  rfl

/-- Issues that are all of one kind. -/
theorem filter_of_kind {is : List Issue} {k : IssueKind} (h : ∀ i ∈ is, i.kind = k) (k' : IssueKind) :
    is.filter (·.kind = k') = if k = k' then is else [] := by
  split
  · next hsame =>
    rw [List.filter_eq_self]
    intro i hi
    exact decide_eq_true ((h i hi).trans hsame)
  · next hother =>
    rw [List.filter_eq_nil_iff]
    intro i hi
    rw [decide_eq_true_eq, h i hi]
    exact hother

/-- **Each kind of issue comes from one check.** -/
theorem filter_issues (t : Text) (k : IssueKind) : (checkSyntax t).1.issues.filter (·.kind = k) =
    (if .unbalancedBraces = k then braceIssues t else []) ++ (if .unterminatedString = k then stringIssues t else []) ++
      (statementIssues t).filter (·.kind = k) ++ (if .unknownPseudoElement = k then pseudoElementIssues t else []) ++
      (if .variableRedeclared = k then redeclarationIssues t else []) := by
  show (syntaxIssues t).filter _ = _
  rw [syntaxIssues, List.filter_append, List.filter_append, List.filter_append, List.filter_append,
    filter_of_kind fun _ => kind_of_braceIssues, filter_of_kind fun _ => kind_of_stringIssues,
    filter_of_kind fun _ => kind_of_pseudoElementIssues, filter_of_kind fun _ => kind_of_redeclarationIssues]

/-- What is no fault of a statement is not reported of one. -/
theorem filter_statementIssues {k : IssueKind}
    (h : k ≠ .unbalancedParentheses ∧ k ≠ .emptyPropertyName ∧ k ≠ .emptyPropertyValue) :
    (statementIssues t).filter (·.kind = k) = [] := by
  rw [List.filter_eq_nil_iff]
  intro i hi
  rw [decide_eq_true_eq]
  rintro rfl
  rcases kind_of_statementIssues hi with hkind | hkind | hkind
  · exact h.1 hkind
  · exact h.2.1 hkind
  · exact h.2.2 hkind

theorem issues_unbalancedBraces (t : Text) :
    (checkSyntax t).1.issues.filter (·.kind = .unbalancedBraces) = braceIssues t := by
  have hstatements : (statementIssues t).filter (·.kind = .unbalancedBraces) = [] := filter_statementIssues (by decide)
  rw [filter_issues, hstatements]
  simp

theorem issues_unterminatedString (t : Text) :
    (checkSyntax t).1.issues.filter (·.kind = .unterminatedString) = stringIssues t := by
  have hstatements : (statementIssues t).filter (·.kind = .unterminatedString) = [] := filter_statementIssues (by decide)
  rw [filter_issues, hstatements]
  simp

/-- The other checks have nothing to say about names that are declared again. -/
theorem issues_redeclared (t : Text) :
    (checkSyntax t).1.issues.filter (·.kind = .variableRedeclared) = redeclarationIssues t := by
  have hstatements : (statementIssues t).filter (·.kind = .variableRedeclared) = [] := filter_statementIssues (by decide)
  rw [filter_issues, hstatements]
  simp

/-! ## The verdict -/

/-- **The brace check finds nothing exactly if the braces of the code mask pair up.** -/
theorem braceIssues_eq_nil_iff : braceIssues t = [] ↔ Paired (codeMask t) := by
  rw [braceIssues_eq_nil_iff_level, structuralMask_eq, levelAfter?_veil]
  rfl

/-- The verdict on braces is that of the brace check. -/
theorem balancedBraces_iff_issues : (checkSyntax t).1.balancedBraces = true ↔ braceIssues t = [] := by
  rw [← issues_unbalancedBraces, List.filter_eq_nil_iff, Validation.balancedBraces, List.all_eq_true]
  simp only [decide_eq_true_eq]

/-- **The verdict on braces is that of the walk.** -/
theorem balancedBraces_iff : (checkSyntax t).1.balancedBraces = true ↔ Paired (codeMask t) := by
  rw [balancedBraces_iff_issues, braceIssues_eq_nil_iff]

/-! ## Blanks -/

theorem Nesting.next_blank {x : Char} (blank : isBlank x = true) (n : Nesting) :
    n.next x = some ⟨n.depth, n.inside, false⟩ := by
  have hopen : x ≠ '{' := by
    rintro rfl
    cases blank
  have hclose : x ≠ '}' := by
    rintro rfl
    cases blank
  have hhash : x ≠ '#' := by
    rintro rfl
    cases blank
  by_cases hinside : 0 < n.inside
  · simp [next, hinside, hopen, hclose]
  · have hzero : n.inside = 0 := Nat.eq_zero_of_not_pos hinside
    simp [next, hzero, hopen, hclose, hhash]

/-- **A blank at the margin of a line does not matter to braces.** -/
theorem Paired.loses_iff {i : Nat} (h : Loses i w w') : Paired w ↔ Paired w' := by
  have hdepth : (Nesting.after? {} w).map (·.depth) = (Nesting.after? {} w').map (·.depth) := by
    obtain @⟨a, x, b, -, blank, margin⟩ := h
    have hnewline : ∀ m : Nesting, m.next '\n' = some ⟨m.depth, m.inside, false⟩ := Nesting.next_blank rfl
    rcases margin with rfl | rfl | ⟨b, rfl⟩
    · rw [List.nil_append, List.nil_append, Nesting.after?, Nesting.next_blank blank, Option.bind_some]
    · rw [List.append_nil, Nesting.after?_append]
      cases Nesting.after? {} a with
      | none => rfl
      | some m =>
        rw [Option.bind_some, Nesting.after?, Nesting.next_blank blank]
        rfl
    · -- a line feed follows, which leaves no hash sign before it
      rw [Nesting.after?_append, Nesting.after?_append]
      simp only [Nesting.after?, Nesting.next_blank blank, Option.bind_some, hnewline]
  rw [Paired, Paired, hdepth]

/-- **Tidying leaves the verdict on braces as it is.** -/
theorem balancedBraces_clean (t : Text) :
    (checkSyntax (clean t)).1.balancedBraces = (checkSyntax t).1.balancedBraces := by
  apply (reaches_clean t).eq_of_loses (f := fun t => (checkSyntax t).1.balancedBraces)
  intro n t t' hloss
  rw [Bool.eq_iff_iff, balancedBraces_iff, balancedBraces_iff]
  exact (Paired.loses_iff (hloss.mask _)).symm

end Flatsheet.Check
