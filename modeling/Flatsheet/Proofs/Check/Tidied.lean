import Flatsheet.Proofs.Check.Scanners
import Flatsheet.Proofs.Style.Declarations

/-!
# `Proofs.Check.Tidied` — tidying a sheet changes nothing that the checks say about it

A sheet is validated before it is tidied, so what is reported about it has to hold of the tidied text. Each
check gives the same issues, up to line numbers and blanks inside their texts (`Gist`), for a text that loses a
blank at the margin of a line; tidying takes such blanks away one at a time (`checkSyntax_clean`).
-/

namespace Flatsheet.Check

open Text Style

variable {t t' w w' : Text} {x : Char} {n k : Nat}

/-! ## The structural mask -/

/-- A blank stays where it is when interpolations are blanked. -/
theorem veil_loss {a b : Text} (blank : isBlank x = true) (margin : a = [] ∨ Ends b) (k : Nat) :
    ∃ m y r, m.length = a.length ∧ isBlank y = true ∧ (Ends b → Ends r) ∧ veil k (a ++ x :: b) = m ++ y :: r ∧
      veil k (a ++ b) = m ++ r := by
  have hends : ∀ k, Ends b → Ends (veil k b) := by
    rintro k (rfl | ⟨r, rfl⟩)
    · cases k <;> exact .inl rfl
    · cases k with
      | zero => exact .inr ⟨_, veil_cons (by simp)⟩
      | succ k => exact .inr ⟨_, rfl⟩
  -- the induction is on what stands before the blank, which is read alike in both texts
  fun_induction veil k a with
  | case1 k =>
    have hne : x ≠ '#' ∧ x ≠ '{' ∧ x ≠ '}' := by
      refine ⟨?_, ?_, ?_⟩ <;> (rintro rfl; cases blank)
    cases k with
    | zero => exact ⟨[], x, veil 0 b, rfl, blank, hends 0, veil_cons (by simp [hne.1]), rfl⟩
    | succ k =>
      refine ⟨[], if x = '\n' then x else ' ', veil (k + 1) b, rfl, ?_, hends _, ?_, rfl⟩
      · split
        · exact blank
        · rfl
      · show veil (k + 1) (x :: b) = _
        rw [veil, if_neg hne.2.1, if_neg hne.2.2]
        rfl
  | case2 r ih =>
    obtain ⟨m, y, q, hlength, hy, hq, hlong, hshort⟩ := ih (.inr (by simpa using margin))
    refine ⟨' ' :: ' ' :: m, y, q, by simp [hlength], hy, hq, ?_, ?_⟩
    · show veil 0 ('#' :: '{' :: (r ++ x :: b)) = _
      rw [veil, hlong]
      rfl
    · show veil 0 ('#' :: '{' :: (r ++ b)) = _
      rw [veil, hshort]
      rfl
  | case3 c r hash ih =>
    have ends : Ends b := by simpa using margin
    obtain ⟨m, y, q, hlength, hy, hq, hlong, hshort⟩ := ih (.inr ends)
    -- no brace comes behind the hash sign because of the blank
    have hhead : ∀ s, Stops s → ¬ (c = '#' ∧ (r ++ s).head? = some '{') := by
      rintro s hs ⟨hc, hhead⟩
      obtain ⟨r', rfl⟩ := List.head?_eq_some_iff.1 ((head?_append_of_stops rfl hs).1 hhead)
      exact hash r' hc rfl
    refine ⟨c :: m, y, q, by simp [hlength], hy, hq, ?_, ?_⟩
    · rw [List.cons_append, veil_cons (hhead _ (stops_cons blank b)), hlong]
      rfl
    · rw [List.cons_append, veil_cons (hhead _ ends.stops), hshort]
      rfl
  | case4 k c r ih =>
    obtain ⟨m, y, q, hlength, hy, hq, hlong, hshort⟩ := ih (.inr (by simpa using margin))
    refine ⟨(if c = '\n' then c else ' ') :: m, y, q, by simp [hlength], hy, hq, ?_, ?_⟩
    · rw [List.cons_append, veil, hlong]
      rfl
    · rw [List.cons_append, veil, hshort]
      rfl

/-- **The structural mask loses the blank that its text loses.** -/
theorem structuralMask_loses (h : Loses n t t') : Loses n (structuralMask t) (structuralMask t') := by
  rw [structuralMask_eq, structuralMask_eq]
  have hcode : Loses n (codeMask t) (codeMask t') := h.mask _
  generalize codeMask t = w at hcode
  generalize codeMask t' = w' at hcode
  obtain @⟨a, x, b, length, blank, margin⟩ := hcode
  obtain ⟨m, y, r, hlength, hy, hr, hlong, hshort⟩ := veil_loss blank margin 0
  rw [hlong, hshort]
  refine .intro (hlength.trans length) hy ?_
  rcases margin with rfl | ends
  · exact .inl (List.length_eq_zero_iff.1 hlength)
  · exact .inr (hr ends)

/-! ## What an issue says -/

/-- What an issue says, without the number of its line and the blanks in its texts. -/
structure Gist where
  kind : IssueKind
  message : Text
  located : Bool
  snippet : Option Text
deriving DecidableEq

/-- The gist of an issue. -/
def Issue.gist (i : Issue) : Gist := ⟨i.kind, bare i.message, i.line.isSome, i.snippet.map bare⟩

theorem bare_trim (t : Text) : bare (trim t) = bare t := by
  obtain ⟨front, hleft, hfront⟩ := eq_append_trimLeft t
  obtain ⟨back, hright, hback⟩ := eq_trimRight_append (trimLeft t)
  have hshown : bare t = bare (trimLeft t) := by
    conv => lhs; rw [hleft]
    rw [bare_append, bare_of_blanks hfront, List.nil_append]
  rw [hshown]
  conv => rhs; rw [hright]
  rw [bare_append, bare_of_blanks hback, List.append_nil]
  rfl

theorem count_bare {z : Char} (hz : isBlank z = false) (t : Text) : (bare t).count z = t.count z :=
  List.count_filter (by simp [hz])

theorem not_blank_of_trim {y : Char} {r : Text} (h : trim t = y :: r) : isBlank y = false := by
  obtain ⟨back, hright, -⟩ := eq_trimRight_append (trimLeft t)
  have hleft : trimLeft t = y :: (r ++ back) := by
    rw [hright]
    show trim t ++ back = _
    rw [h]
    rfl
  exact not_blank_of_trimLeft hleft

theorem head?_trim (t : Text) : (trim t).head? = (bare t).head? := by
  rw [← bare_trim]
  cases h : trim t with
  | nil => rfl
  | cons y r => simp [bare, not_blank_of_trim h]

theorem isEmpty_trim (t : Text) : (trim t).isEmpty = (bare t).isEmpty := by
  have hhead := head?_trim t
  cases htrim : trim t with
  | nil =>
    rw [htrim] at hhead
    rw [List.head?_eq_none_iff.1 hhead.symm]
  | cons y r =>
    rw [htrim] at hhead
    obtain ⟨q, hq⟩ := List.head?_eq_some_iff.1 hhead.symm
    rw [hq]
    rfl

/-! ## Braces and strings -/

/-- Whether there is an excess depends on the bytes that are not blank. -/
theorem isSome_firstExcess? (d pos pos' : Nat) (w : Text) :
    (firstExcess? d pos w).isSome = (firstExcess? d pos' (bare w)).isSome := by
  induction w generalizing d pos pos' with
  | nil => rfl
  | cons c r ih =>
    cases hc : isBlank c with
    | true =>
      have hne : c ≠ '{' ∧ c ≠ '}' := by
        constructor <;> (rintro rfl; cases hc)
      rw [bare_cons_of_blank hc, firstExcess?, if_neg hne.1, if_neg hne.2]
      exact ih d (pos + 1) pos'
    | false =>
      have hbare : bare (c :: r) = c :: bare r := by simp [bare, hc]
      rw [hbare, firstExcess?, firstExcess?]
      split
      · exact ih _ _ _
      · split
        · split
          · rfl
          · exact ih _ _ _
        · exact ih _ _ _

theorem braceIssues_loses (h : Loses n t t') : (braceIssues t').map Issue.gist = (braceIssues t).map Issue.gist := by
  have hcode := (structuralMask_loses h).bare_eq
  have hcount : ∀ z, isBlank z = false → (structuralMask t').count z = (structuralMask t).count z := by
    intro z hz
    rw [← count_bare hz, hcode, count_bare hz]
  have hexcess : (firstExcess? 0 0 (structuralMask t')).isSome = (firstExcess? 0 0 (structuralMask t)).isSome := by
    rw [isSome_firstExcess? 0 0 0, hcode, ← isSome_firstExcess? 0 0 0]
  unfold braceIssues
  dsimp only
  rw [hcount '{' rfl, hcount '}' rfl, hexcess]
  split
  · simp [Issue.gist, hexcess]
  · rfl

theorem openQuote_start (blank : isBlank x = true) (l : Text) :
    openQuote none false (x :: l) = openQuote none false l := by
  have hquote : ¬ (x = '"' ∨ x = '\'') := by
    rintro (rfl | rfl) <;> cases blank
  simp [openQuote, hquote]

/-- A blank at the end of a line closes no string. -/
theorem openQuote_stop (blank : isBlank x = true) {quote : Option Char} (hquote : ∀ q, quote = some q → isBlank q = false)
    (escaped : Bool) (l : Text) :
    (openQuote quote escaped (l ++ [x])).isSome = (openQuote quote escaped l).isSome := by
  -- the state of the reader before the blank is the same, and the blank changes no quote
  induction l generalizing quote escaped with
  | nil =>
    cases quote with
    | none =>
      have hopens := openQuote_start blank []
      cases escaped <;> simpa [openQuote] using hopens
    | some q =>
      have hq : x ≠ q := by
        rintro rfl
        rw [hquote x rfl] at blank
        cases blank
      have hback : x ≠ '\\' := by
        rintro rfl
        cases blank
      cases escaped <;> simp [openQuote, hq, hback]
  | cons c l ih =>
    rw [List.cons_append, openQuote.eq_def, openQuote.eq_def quote]
    cases quote with
    | none =>
      dsimp only
      apply ih
      intro q hq
      split at hq
      · next hc =>
        cases hq
        rcases (by simpa using hc : c = '"' ∨ c = '\'') with rfl | rfl <;> rfl
      · cases hq
    | some q =>
      dsimp only
      split
      · exact ih hquote _
      · split
        · exact ih hquote _
        · split
          · exact ih (by simp) _
          · exact ih hquote _

/-- The gist of the issue of a line. -/
def lineGist (line : Text) : Option Gist :=
  if (openQuote none false line).isSome then
    some ⟨.unterminatedString, bare "Unterminated string".toList, true, some (bare line)⟩
  else none

theorem gists_of_strings (t : Text) :
    (stringIssues t).map Issue.gist = (lines (commentMask t)).filterMap lineGist := by
  have hline : ∀ p : Text × Nat, ((if (openQuote none false p.1).isSome then
      some { kind := .unterminatedString, message := "Unterminated string".toList, line := some (p.2 + 1),
             snippet := some (trim p.1) } else none : Option Issue)).map Issue.gist = lineGist p.1 := by
    intro p
    unfold lineGist
    split
    · simp [Issue.gist, bare_trim]
    · rfl
  unfold stringIssues
  rw [List.map_filterMap]
  simp only [hline]
  have hfirst : (lines (commentMask t)).zipIdx.map Prod.fst = lines (commentMask t) := by simp
  conv => rhs; rw [← hfirst, List.filterMap_map]
  rfl

theorem stringIssues_loses (h : Loses n t t') :
    (stringIssues t').map Issue.gist = (stringIssues t).map Issue.gist := by
  rw [gists_of_strings, gists_of_strings]
  have hmask : Loses n (commentMask t) (commentMask t') := h.mask _
  generalize commentMask t = w at hmask
  generalize commentMask t' = w' at hmask
  obtain @⟨a, x, b, -, blank, margin⟩ := hmask
  have hnone : lineGist [] = none := rfl
  have hstop : ∀ a : Text, (lines (a ++ [x])).filterMap lineGist = (lines a).filterMap lineGist := by
    intro a
    by_cases hx : x = '\n'
    · rw [hx, lines, splitOn_append_cons, List.filterMap_append]
      simp [splitOn, hnone, lines]
    · obtain ⟨ps, p, ha, hax⟩ := splitOn_concat_of_ne hx a
      have hbare : bare (p ++ [x]) = bare p := (Loses.stop rfl blank).bare_eq.symm
      have hline : lineGist (p ++ [x]) = lineGist p := by
        unfold lineGist
        rw [openQuote_stop blank (by simp), hbare]
      rw [lines, lines, ha, hax, List.filterMap_append, List.filterMap_append, List.filterMap_cons,
        List.filterMap_cons, hline]
  -- the blank is the first byte of all, the last one, or stands before a line feed
  rcases margin with rfl | rfl | ⟨r, rfl⟩
  · by_cases hx : x = '\n'
    · rw [hx, List.nil_append, List.nil_append, lines, lines, splitOn, if_pos rfl, List.filterMap_cons, hnone]
    · obtain ⟨p, ps, hb, hxb⟩ := splitOn_cons_of_ne hx b
      have hline : lineGist (x :: p) = lineGist p := by
        rw [lineGist, openQuote_start blank, bare_cons_of_blank blank]
        rfl
      rw [List.nil_append, List.nil_append, lines, lines, hb, hxb, List.filterMap_cons, List.filterMap_cons, hline]
  · rw [List.append_nil, hstop]
  · have hcut : a ++ x :: '\n' :: r = (a ++ [x]) ++ '\n' :: r := by simp
    have hlast := hstop a
    unfold lines at hlast ⊢
    rw [hcut, splitOn_append_cons, splitOn_append_cons, List.filterMap_append, List.filterMap_append, hlast]

/-! ## Statements -/

theorem splitAtColon?_bare (t : Text) :
    splitAtColon? (bare t) = (splitAtColon? t).map fun (name, value) => (bare name, bare value) := by
  induction t with
  | nil => rfl
  | cons c r ih =>
    have hcons : ∀ c r, c ≠ ':' → splitAtColon? (c :: r) =
        (splitAtColon? r).map fun (name, value) => (c :: name, value) := by
      intro c r hc
      unfold splitAtColon?
      rw [List.dropWhile_cons, List.takeWhile_cons, if_pos (by simpa using hc), if_pos (by simpa using hc)]
      split <;> rfl
    -- the text is split at the same colon, which is not blank
    by_cases hcolon : c = ':'
    · subst hcolon
      have hfirst : ∀ r, splitAtColon? (':' :: r) = some ([], r) := fun r => rfl
      have hbare : bare (':' :: r) = ':' :: bare r := rfl
      rw [hbare, hfirst, hfirst]
      rfl
    · rw [hcons c r hcolon, Option.map_map]
      cases hc : isBlank c with
      | true =>
        rw [bare_cons_of_blank hc, ih]
        congr 1
        funext ⟨name, value⟩
        simp [bare_cons_of_blank hc]
      | false =>
        have hbare : ∀ r, bare (c :: r) = c :: bare r := fun r => by simp [bare, hc]
        rw [hbare, hcons c _ hcolon, ih, Option.map_map]
        congr 1
        funext ⟨name, value⟩
        simp [hbare]

/-- The gists of the issues of a statement, given the bytes of the statement that are not blank, in the structural
mask and in the text. -/
def statementGists (body raw : Text) (terminator : Char) (depth : Nat) : List Gist :=
  let parentheses : List Gist :=
    if body.count '(' ≠ body.count ')' then
      [⟨.unbalancedParentheses, bare "Unbalanced parentheses".toList, true, some raw⟩]
    else []
  let isDeclaration := 0 < depth && terminator ≠ '{' && !(body.head?.any fun c => c = '@' || c = '&' || c = '%')
  let declaration : List Gist :=
    match if isDeclaration then splitAtColon? body else none with
    | none => []
    | some (name, value) =>
      if name.isEmpty then [⟨.emptyPropertyName, bare "Empty property name".toList, true, some raw⟩]
      else if value.isEmpty then
        [⟨.emptyPropertyValue, bare "Empty value for '".toList ++ name ++ bare "'".toList, true, some raw⟩]
      else []
  if body.isEmpty then [] else parentheses ++ declaration

/-- **The gists of a statement depend on the bytes that are not blank.** -/
theorem gists_of_statement (t code : Text) (s : Statement) : (s.issues t code).map Issue.gist =
    statementGists (bare (slice code s.span.start s.span.stop)) (bare (slice t s.span.start s.span.stop))
      s.terminator s.depth := by
  unfold Statement.issues statementGists
  dsimp only
  generalize slice code s.span.start s.span.stop = segment
  rw [isEmpty_trim, head?_trim, ← bare_trim segment, splitAtColon?_bare, count_bare rfl, count_bare rfl]
  split
  · rfl
  · rw [List.map_append]
    congr 1
    · split
      · simp [Issue.gist, bare_trim]
      · rfl
    · -- only a declaration is split at its colon
      by_cases hdeclaration : (decide (0 < s.depth) && decide (s.terminator ≠ '{') &&
          !Option.any (fun c => decide (c = '@') || decide (c = '&') || decide (c = '%')) (bare (trim segment)).head?) = true
      · rw [if_pos hdeclaration, if_pos hdeclaration]
        cases splitAtColon? (trim segment) with
        | none => rfl
        | some parts =>
          obtain ⟨name, value⟩ := parts
          dsimp only [Option.map_some]
          rw [isEmpty_trim, isEmpty_trim]
          split
          · simp [Issue.gist, bare_trim]
          · split
            · simp only [Issue.gist, bare_append, bare_trim, List.map_cons, List.map_nil, Option.map_some,
                Option.isSome_some]
            · rfl
      · rw [if_neg hdeclaration, if_neg hdeclaration]
        rfl

/-- The statement in a text that has lost the blank at offset `n`. -/
def Statement.squeezed (n : Nat) (s : Statement) : Statement :=
  { s with span := ⟨squeeze n s.span.start, squeeze n s.span.stop⟩ }

/-- Statements that end behind the lost blank are one byte further to the left. -/
theorem statementsFrom_behind {start pos : Nat} (depth : Nat) (b : Text) (hpos : n < pos) :
    (statementsFrom start pos depth b).map (Statement.squeezed n) =
      statementsFrom (squeeze n start) (pos - 1) depth b := by
  have hsqueeze : ∀ {p}, n < p → squeeze n p = p - 1 := fun hp => if_pos hp
  induction b generalizing start pos depth with
  | nil => simp [statementsFrom, Statement.squeezed, hsqueeze hpos]
  | cons c r ih =>
    have hnext : pos + 1 - 1 = pos - 1 + 1 := by omega
    have hmore : ∀ depth, (statementsFrom (pos + 1) (pos + 1) depth r).map (Statement.squeezed n) =
        statementsFrom (pos - 1 + 1) (pos - 1 + 1) depth r := by
      intro depth
      rw [ih depth (by omega), hsqueeze (by omega), hnext]
    rw [statementsFrom, statementsFrom]
    split
    · simp [Statement.squeezed, hsqueeze hpos, hmore]
    · split
      · simp [Statement.squeezed, hsqueeze hpos, hmore]
      · split
        · simp [Statement.squeezed, hsqueeze hpos, hmore]
        · rw [ih depth (by omega), hnext]

/-- **A text that loses a blank keeps its statements.** -/
theorem statementsFrom_loss {start pos : Nat} (blank : isBlank x = true) (hstart : start ≤ pos) (depth : Nat)
    (v b : Text) (hn : n = pos + v.length) :
    (statementsFrom start pos depth (v ++ x :: b)).map (Statement.squeezed n) =
      statementsFrom start pos depth (v ++ b) := by
  have hsqueeze : ∀ {p}, p ≤ n → squeeze n p = p := fun hp => if_neg (Nat.not_lt.2 hp)
  induction v generalizing start pos depth with
  | nil =>
    have hne : x ≠ ';' ∧ x ≠ '{' ∧ x ≠ '}' := by
      refine ⟨?_, ?_, ?_⟩ <;> (rintro rfl; cases blank)
    rw [List.length_nil, Nat.add_zero] at hn
    rw [List.nil_append, List.nil_append, statementsFrom, if_neg hne.1, if_neg hne.2.1, if_neg hne.2.2,
      statementsFrom_behind depth b (by omega), hsqueeze (by omega), Nat.add_sub_cancel]
  | cons c v ih =>
    rw [List.length_cons] at hn
    have hspan : squeeze n start = start ∧ squeeze n pos = pos := ⟨hsqueeze (by omega), hsqueeze (by omega)⟩
    have hmore : ∀ depth, (statementsFrom (pos + 1) (pos + 1) depth (v ++ x :: b)).map (Statement.squeezed n) =
        statementsFrom (pos + 1) (pos + 1) depth (v ++ b) := fun depth => ih (Nat.le_refl _) depth (by omega)
    rw [List.cons_append, List.cons_append, statementsFrom, statementsFrom]
    split
    · simp [Statement.squeezed, hspan, hmore]
    · split
      · simp [Statement.squeezed, hspan, hmore]
      · split
        · simp [Statement.squeezed, hspan, hmore]
        · exact ih (by omega) depth (by omega)

theorem statementIssues_loses (h : Loses n t t') :
    (statementIssues t').map Issue.gist = (statementIssues t).map Issue.gist := by
  have hcode := structuralMask_loses h
  have hstatements : (statementsFrom 0 0 0 (structuralMask t)).map (Statement.squeezed n) =
      statementsFrom 0 0 0 (structuralMask t') := by
    generalize structuralMask t = w at hcode
    generalize structuralMask t' = w' at hcode
    obtain @⟨a, x, b, length, blank, -⟩ := hcode
    exact statementsFrom_loss blank (Nat.le_refl 0) 0 a b (by omega)
  unfold statementIssues
  dsimp only
  rw [List.map_flatMap, List.map_flatMap, ← hstatements, List.flatMap_map]
  congr 1
  funext s
  rw [gists_of_statement, gists_of_statement]
  show statementGists (bare (slice _ (squeeze n _) (squeeze n _))) (bare (slice _ (squeeze n _) (squeeze n _))) _ _ = _
  rw [hcode.bare_slice, h.bare_slice]
  rfl

/-! ## Pseudo-elements and redeclarations -/

/-- The gist of the issue of a pseudo-element. -/
def pseudoElementGist (name : Text) : Option Gist :=
  if name.isEmpty || startsWith name "-webkit-".toList || startsWith name "-moz-".toList
    || pseudoElements.contains name then none
  else some ⟨.unknownPseudoElement, bare ("Unknown pseudo-element '::".toList ++ name ++ "'".toList), true, none⟩

theorem gists_of_pseudoElements (t : Text) : (pseudoElementIssues t).map Issue.gist =
    ((sweep lookPseudoElement (structuralMask t)).map (·.2)).filterMap pseudoElementGist := by
  unfold pseudoElementIssues
  rw [List.map_filterMap, List.filterMap_map]
  congr 1
  funext ⟨pos, name⟩
  show Option.map Issue.gist _ = pseudoElementGist name
  unfold pseudoElementGist
  dsimp only
  split
  · rfl
  · rfl

theorem pseudoElementIssues_loses (h : Loses n t t') :
    (pseudoElementIssues t').map Issue.gist = (pseudoElementIssues t).map Issue.gist := by
  rw [gists_of_pseudoElements, gists_of_pseudoElements]
  have hnames := sweep_loses overlooks_pseudoElement overlooks_pseudoElement alike_pseudoElement
    (structuralMask_loses h)
  rw [hnames]

/-- Which names are declared again depends on the labels of the declarations. -/
theorem repeated_congr {ds ds' : List Declaration} (h : ds.map Declaration.label = ds'.map Declaration.label)
    (names : List Text) : (repeated names ds).map (·.name) = (repeated names ds').map (·.name) := by
  induction ds generalizing ds' names with
  | nil =>
    rw [List.map_nil, eq_comm, List.map_eq_nil_iff] at h
    rw [h]
  | cons d ds ih =>
    cases ds' with
    | nil => cases h
    | cons d' ds' =>
      rw [List.map_cons, List.map_cons, List.cons.injEq] at h
      obtain ⟨hlabel, hrest⟩ := h
      have hname : d.name = d'.name := congrArg Prod.fst hlabel
      have hdefault : d.isDefault = d'.isDefault := congrArg Prod.snd hlabel
      rw [repeated, repeated, hname, hdefault]
      split
      · split
        · exact ih hrest names
        · rw [List.map_cons, List.map_cons, hname, ih hrest names]
      · exact ih hrest _

theorem redeclarationIssues_loses (h : Loses n t t') :
    (redeclarationIssues t').map Issue.gist = (redeclarationIssues t).map Issue.gist := by
  have hgist : ∀ t, (redeclarationIssues t).map Issue.gist =
      ((repeated [] (Declaration.find t)).map (·.name)).map fun name =>
        (⟨.variableRedeclared, bare ('$' :: name ++ " is declared more than once".toList), true, none⟩ : Gist) := by
    intro t
    unfold redeclarationIssues
    rw [List.map_map, List.map_map]
    rfl
  rw [hgist, hgist, repeated_congr (find_loses h)]

/-! ## The verdict -/

/-- **Every check says the same** about a text that has lost a blank. -/
theorem syntaxIssues_loses (h : Loses n t t') :
    (syntaxIssues t').map Issue.gist = (syntaxIssues t).map Issue.gist := by
  unfold syntaxIssues
  simp only [List.map_append]
  rw [braceIssues_loses h, stringIssues_loses h, statementIssues_loses h, pseudoElementIssues_loses h,
    redeclarationIssues_loses h]

/-- **The same constructs are left over** in it. -/
theorem remaining_loses (h : Loses n t t') : Remaining.of t' = Remaining.of t := by
  have hcode : Loses n (codeMask t) (codeMask t') := h.mask _
  have hvars := sweep_loses overlooks_variable overlooks_variable alike_variable hcode
  have hincludes := sweep_loses overlooks_include overlooks_include alike_include hcode
  have hhelpers : (HelperCall.find t).map (·.name) = (HelperCall.find t').map (·.name) :=
    sweep_loses (overlooks_helper t) (overlooks_helper t') (alike_helper t t') hcode
  rw [List.map_id, List.map_id] at hvars hincludes
  unfold Remaining.of
  dsimp only
  rw [hvars, hincludes, hhelpers]

/-- The verdict is read off the gists of the issues. -/
theorem isValid_eq (t : Text) : (checkSyntax t).1.isValid =
    ((syntaxIssues t).map Issue.gist).all fun g => !g.kind.isError := by
  show (((syntaxIssues t).filter (·.isError)).isEmpty && true) = _
  rw [Bool.and_true, Bool.eq_iff_iff, List.isEmpty_iff, List.filter_eq_nil_iff, List.all_map, List.all_eq_true]
  simp [Issue.gist, Issue.isError]

/-- **The verdict on a sheet holds of the tidied sheet.** Tidying changes no issue but for its line number and the
blanks in its texts, and no name of what is left over. -/
theorem checkSyntax_clean (t : Text) :
    (checkSyntax (clean t)).1.isValid = (checkSyntax t).1.isValid ∧
    (checkSyntax (clean t)).1.balancedBraces = (checkSyntax t).1.balancedBraces ∧
    (checkSyntax (clean t)).1.remaining.any = (checkSyntax t).1.remaining.any ∧
    (checkSyntax (clean t)).1.remaining.vars = (checkSyntax t).1.remaining.vars ∧
    (checkSyntax (clean t)).1.remaining.mixins = (checkSyntax t).1.remaining.mixins ∧
    (checkSyntax (clean t)).1.remaining.helpers = (checkSyntax t).1.remaining.helpers ∧
    (checkSyntax (clean t)).1.issues.map (fun i => (i.kind, i.isError)) =
      (checkSyntax t).1.issues.map (fun i => (i.kind, i.isError)) ∧
    (checkSyntax (clean t)).1.issues.map Issue.gist = (checkSyntax t).1.issues.map Issue.gist := by
  have hgists : (syntaxIssues (clean t)).map Issue.gist = (syntaxIssues t).map Issue.gist :=
    (reaches_clean t).eq_of_loses (f := fun t => (syntaxIssues t).map Issue.gist) syntaxIssues_loses
  have hremaining : Remaining.of (clean t) = Remaining.of t :=
    (reaches_clean t).eq_of_loses remaining_loses
  have hvalid : (checkSyntax (clean t)).1.isValid = (checkSyntax t).1.isValid := by
    rw [isValid_eq, isValid_eq, hgists]
  have hkinds : ∀ is : List Issue, is.map (fun i => (i.kind, i.isError)) =
      (is.map Issue.gist).map fun g => (g.kind, g.kind.isError) := by
    intro is
    rw [List.map_map]
    rfl
  refine ⟨hvalid, balancedBraces_clean t, ?_, ?_, ?_, ?_, ?_, hgists⟩
  · exact congrArg Remaining.any hremaining
  · exact congrArg Remaining.vars hremaining
  · exact congrArg Remaining.mixins hremaining
  · exact congrArg Remaining.helpers hremaining
  · show (syntaxIssues (clean t)).map _ = (syntaxIssues t).map _
    rw [hkinds, hkinds, hgists]

end Flatsheet.Check
