import Flatsheet.Proofs.Repair.Mending
import Flatsheet.Proofs.Repair.VariableUses

/-!
# `Proofs.Repair.DeclaredUses` — what the repair of a variable does to its declarations

The scanner for declarations reads statements in the code mask of the whole text. The repair reads lines, and takes a
line for a declaration by what it begins with. So the name of a declaration stays exactly if its line is left alone
(`declaration_repaired`): if nothing but blanks is before it on the line, exactly if the colon follows at once. The
name of any other declaration is taken for a use (`declarations_destroyed`).

* `written_of_mem_find`: what the mask shows of a declaration
* `nameEnds_behind`: the name ends in the text, too, as behind code the mask hides no byte of a name
* `getElem?_lineNumberAt`: the line of an offset
-/

namespace Flatsheet.Repair

open Text Style Log Mask

variable {t u w name blanks value : Text} {x y : Char} {i k : Nat} {ls : List Text} {d : Declaration}

/-! ## The line of an offset -/

theorem count_feed_ended (h : ∀ l ∈ ls, '\n' ∉ l) : (ended ls).count '\n' = ls.length := by
  induction ls with
  | nil => rfl
  | cons l ls ih =>
    rw [List.forall_mem_cons] at h
    rw [ended_cons, List.count_append, List.count_cons_self, ih h.2, List.count_eq_zero.2 h.1, Nat.zero_add,
      List.length_cons]

/-- **The line of an offset** is made of what is before it and what is behind it. -/
theorem getElem?_lineNumberAt (hi : i ≤ t.length) :
    (lines t)[lineNumberAt t i - 1]? = some (lastLine (t.take i) ++ firstLine (t.drop i)) := by
  obtain ⟨before, l, after, col, hlines, hplace, hcol⟩ := exists_line t hi
  obtain ⟨htake, hlast, hfirst⟩ := place_of_lines hlines hplace hcol
  have hnone : ∀ m ∈ before ++ l :: after, '\n' ∉ m := by
    intro m hm
    rw [← hlines] at hm
    exact not_mem_of_mem_splitOn hm
  have hline : '\n' ∉ l.take col := fun hmem =>
    hnone l (List.mem_append_right _ List.mem_cons_self) (List.mem_of_mem_take hmem)
  have hcount : lineNumberAt t i - 1 = before.length := by
    rw [lineNumberAt, Nat.add_sub_cancel_left, htake, List.count_append, List.count_eq_zero.2 hline, Nat.add_zero,
      count_feed_ended fun m hm => hnone m (List.mem_append_left _ hm)]
  rw [hlast, hfirst, List.take_append_drop, hcount, hlines, List.getElem?_append_right (Nat.le_refl _), Nat.sub_self]
  rfl

/-! ## What is written of a declaration -/

/-- **A declaration in the code mask**: the dollar sign, the name, blanks and the colon. -/
theorem written_of_mem_find (h : d ∈ Declaration.find t) : ∃ blanks value,
    (codeMask t).drop d.span.start = reference d.name ++ (blanks ++ ':' :: value) ∧
      (d.name ≠ [] ∧ ∀ x ∈ d.name, isIdent x = true) ∧ ∀ x ∈ blanks, isBlank x = true := by
  obtain ⟨q, hq, hdollar, -, hfound, -⟩ := mem_findOn (sound_place t 0) h
  obtain ⟨r, hr⟩ := List.head?_eq_some_iff.1 hdollar
  rw [at?_eq hq.reads hdollar] at hfound
  dsimp only at hfound
  split at hfound
  · cases hfound
  · next hshown =>
    obtain ⟨n, -, rfl⟩ := Option.map_eq_some_iff.1 hfound
    have hname : (q.cursor.advance 1).rest = r := congrArg (List.drop 1) hr
    rw [Cursor.byte?, Cursor.rest_skip, Cursor.rest_skip, hname, Bool.or_eq_true, not_or, List.isEmpty_iff,
      decide_eq_true_eq, not_not] at hshown
    obtain ⟨value, hvalue⟩ := List.head?_eq_some_iff.1 hshown.2
    refine ⟨(r.dropWhile isIdent).takeWhile isBlank, value, ?_, ⟨?_, List.all_eq_true.1 List.all_takeWhile⟩,
      List.all_eq_true.1 List.all_takeWhile⟩
    · show (codeMask t).drop q.cursor.pos = '$' :: ((q.cursor.advance 1).rest.takeWhile isIdent ++ _)
      rw [← hq.reads.at.rest, hr, hname, ← hvalue, List.takeWhile_append_dropWhile, List.takeWhile_append_dropWhile]
    · show (q.cursor.advance 1).rest.takeWhile isIdent ≠ []
      rw [hname]
      exact hshown.1

/-- Behind a byte of a name that is code, the next one is code, too. -/
theorem shown_behind (h : (codeMask t)[k]? = some x) (hx : isIdent x = true) (hy : t[k + 1]? = some y)
    (hident : isIdent y = true) : (codeMask t)[k + 1]? = some y := by
  have hblank : isBlank x = false := not_isBlank_of_isIdent hx
  have hspace : x ≠ ' ' := by
    rintro rfl
    cases hblank
  have hquote : x ≠ '"' ∧ x ≠ '\'' := by
    constructor <;> rintro rfl <;> cases hx
  have htake : t.take (k + 1) = t.take k ++ [x] := by
    rw [List.take_add_one, getElem?_of_run h hspace]
    rfl
  have hcode : State.after none .code (some y) (t.take (k + 1)) = .code := by
    rw [htake, after_concat, after_of_masked h hblank hquote]
    exact Begins.next_mild (.inl rfl) (mild_of_isIdent hx)
  rw [codeMask, getElem?_mask .commentsAndStrings hy, hcode, Begins.next_mild (.inl rfl) (mild_of_isIdent hident)]
  rfl

/-- **A reference that the code mask shows as a whole is one in the text**, and no name goes on behind it there. -/
theorem nameEnds_behind (hname : name ≠ [] ∧ ∀ x ∈ name, isIdent x = true)
    (h : (codeMask t).drop i = reference name ++ w) (hends : NameEnds w) :
    ∃ r, t.drop i = reference name ++ r ∧ NameEnds r := by
  have hspace : ' ' ∉ reference name := by
    intro hmem
    rcases List.mem_cons.1 hmem with hmem | hmem
    · cases hmem
    · cases hname.2 ' ' hmem
  have hslice : slice (codeMask t) i (i + (reference name).length) = reference name := by
    rw [slice, h, Nat.add_sub_cancel_left, List.take_left]
  have hwritten : (t.drop i).take (reference name).length = reference name := by
    have hraw := slice_of_codeMask hslice hspace
    rwa [slice, Nat.add_sub_cancel_left] at hraw
  refine ⟨(t.drop i).drop (reference name).length, ?_, ?_⟩
  · conv => lhs; rw [← List.take_append_drop (reference name).length (t.drop i), hwritten]
  · -- the last byte of the name is code, so a byte of a name behind it would be shown
    obtain ⟨front, x, rfl⟩ := (List.eq_nil_or_concat name).resolve_left hname.1
    rw [List.concat_eq_append] at h hname ⊢
    have hlast : (codeMask t)[i + (front.length + 1)]? = some x := by
      rw [← List.getElem?_drop, h, reference, List.cons_append, List.getElem?_cons_succ, List.append_assoc,
        List.getElem?_append_right (Nat.le_refl _), Nat.sub_self]
      rfl
    have hx : isIdent x = true := hname.2 x (List.mem_append_right front List.mem_cons_self)
    have hlength : (reference (front ++ [x])).length = front.length + 1 + 1 := by
      rw [reference, List.length_cons, List.length_append, List.length_singleton]
    have hbehind : ((t.drop i).drop (reference (front ++ [x])).length).head? = t[i + (front.length + 1) + 1]? := by
      rw [hlength, List.head?_drop, List.getElem?_drop, ← Nat.add_assoc]
    rw [NameEnds, hbehind, Bool.eq_false_iff]
    intro hany
    obtain ⟨y, hy, hident⟩ := (Option.any_eq_true isIdent _).1 hany
    have hshown := shown_behind hlast hx hy hident
    rw [Nat.add_assoc, ← hlength, ← List.getElem?_drop, h, List.getElem?_append_right (Nat.le_refl _), Nat.sub_self,
      ← List.head?_eq_getElem?] at hshown
    rw [NameEnds, hshown, Option.any_some, hident] at hends
    cases hends

/-! ## The repair -/

/-- What stands before the declaration on its line. -/
def leftOf (t : Text) (d : Declaration) : Text := lastLine (t.take d.span.start)

/-- What stands behind the name of the declaration on its line. -/
def rightOf (t : Text) (d : Declaration) : Text := firstLine (t.drop (d.span.start + (reference d.name).length))

/-- The line of the declaration. -/
def declaring (t : Text) (d : Declaration) : Text := leftOf t d ++ (reference d.name ++ rightOf t d)

/-- **The line of a declaration.** No name goes on behind that of the declaration. -/
theorem line_of_declaration (h : d ∈ Declaration.find t) :
    (lines t)[lineNumberAt t d.span.start - 1]? = some (declaring t d) ∧
      (d.name ≠ [] ∧ ∀ x ∈ d.name, isIdent x = true) ∧ NameEnds (rightOf t d) := by
  obtain ⟨blanks, value, hmask, ⟨hne, hident⟩, hblanks⟩ := written_of_mem_find h
  have hends : NameEnds (blanks ++ ':' :: value) := by
    cases blanks with
    | nil => rfl
    | cons b blanks => exact not_isIdent_of_blank (hblanks b List.mem_cons_self)
  obtain ⟨r, hr, hrest⟩ := nameEnds_behind ⟨hne, hident⟩ hmask hends
  have hfeed : '\n' ∉ reference d.name := by
    intro hmem
    rcases List.mem_cons.1 hmem with hmem | hmem
    · cases hmem
    · cases hident '\n' hmem
  have hin : d.span.start ≤ t.length := by
    by_contra hout
    rw [List.drop_of_length_le (by omega)] at hr
    cases hr
  have hback : rightOf t d = firstLine r := by
    rw [rightOf, ← List.drop_drop, hr, List.drop_left]
  have hline := getElem?_lineNumberAt hin
  rw [hr, firstLine_append_left hfeed, ← hback] at hline
  refine ⟨hline, ⟨hne, hident⟩, ?_⟩
  rw [hback]
  cases r with
  | nil => rfl
  | cons y r =>
    rw [firstLine, List.takeWhile_cons]
    split
    · exact hrest
    · rfl

/-- A declaration with nothing but blanks before it is left alone exactly if its colon follows at once. -/
theorem leftAlone_iff_of_blank {a b : Text} (hname : ∀ x ∈ name, isIdent x = true)
    (ha : ∀ x ∈ a, isBlank x = true) : LeftAlone name (a ++ (reference name ++ b)) = true ↔ b.head? = some ':' := by
  have hsolid : isBlankLine (a ++ (reference name ++ b)) = false :=
    isBlankLine_of_mem (x := '$') (List.mem_append_right a List.mem_cons_self) rfl
  have htrim : trimLeft (a ++ (reference name ++ b)) = reference name ++ b := by
    have hcut : trimLeft (a ++ (reference name ++ b)) = trimLeft a ++ (reference name ++ b) :=
      trimLeft_append_cons rfl a _
    rw [hcut, trimLeft_of_blank ha, List.nil_append]
  have hmarked : marked (reference name ++ b) = false := by
    rw [Bool.eq_false_iff]
    intro hmarked
    obtain ⟨r, hr⟩ := exists_of_marked hmarked
    cases hr
  rw [LeftAlone, isProtected, hsolid, isCommentLine_eq, startsWith_trim (isWord_declared hname), htrim, hmarked,
    Bool.false_or, Bool.false_or, startsWith, List.isPrefixOf_iff_prefix, List.prefix_append_right_inj]
  constructor
  · rintro ⟨r, rfl⟩
    rfl
  · intro hb
    obtain ⟨r, rfl⟩ := List.head?_eq_some_iff.1 hb
    exact ⟨r, rfl⟩

/-- **What the repair of an undefined variable does to its declarations.** The line of a declaration that the scanner
finds in a file in scope is either left alone, or the name of the declaration is taken for a use and an expression is
written for it, and what is before it and behind it on the line is repaired, too. A declaration with nothing but blanks
before it on its line is left alone exactly if the colon follows its name at once. -/
theorem declaration_repaired (e : CompileError) (files : List Candidate) {i : Nat} {c : Candidate} {d : Declaration}
    (hkind : e.kind = .undefinedVariable) (hfile : files[i]? = some c) (hscope : InScope e files c = true)
    (hlines : ∀ l ∈ c.lines, '\n' ∉ l) (hd : d ∈ Declaration.find c.content) (hname : d.name = e.name) :
    ∃ c', (fix e files).1[i]? = some c' ∧
      c.lines[lineNumberAt c.content d.span.start - 1]? = some (declaring c.content d) ∧
      (LeftAlone e.name (declaring c.content d) = true →
        c'.lines[lineNumberAt c.content d.span.start - 1]? = some (declaring c.content d)) ∧
      (LeftAlone e.name (declaring c.content d) = false →
        c'.lines[lineNumberAt c.content d.span.start - 1]? = some (replaceVariable e.name (leftOf c.content d) ++
          (expression e.name ++ replaceVariable e.name (rightOf c.content d)))) ∧
      ((∀ x ∈ leftOf c.content d, isBlank x = true) →
        (LeftAlone e.name (declaring c.content d) = true ↔ (rightOf c.content d).head? = some ':')) := by
  obtain ⟨hline, ⟨hne, hident⟩, hends⟩ := line_of_declaration hd
  have hsome : c.lines ≠ [] := by
    intro hnil
    rw [Candidate.content, hnil] at hd
    cases hd
  have hcontent : lines c.content = c.lines := lines_unlines hsome hlines
  rw [hcontent] at hline
  rw [hname] at hne hident
  -- the repair changes each line by itself, so the line is looked up where it was
  have hrenewed : (renewedFile e.name c).lines[lineNumberAt c.content d.span.start - 1]? =
      some (renewed e.name (declaring c.content d)) := by
    show (c.lines.map (renewed e.name))[_]? = _
    rw [List.getElem?_map, hline]
    rfl
  refine ⟨renewedFile e.name c, ?_, hline, fun halone => ?_, fun halone => ?_, fun hblank => ?_⟩
  · rw [(fix_variable_spec hkind hne files).1, List.getElem?_map, hfile, Option.map_some, renewedIn, if_pos hscope]
  · rw [hrenewed, renewed, if_pos halone]
  · -- the declaration is a use, before which the line can be cut
    have hback := rewritten_replaceVariable hident (rightOf c.content d)
    have hfront := rewritten_replaceVariable hident (leftOf c.content d)
    have hcut := hfront.append_dollar (dollar_not_mem hident) (.use hends hback)
    rw [hrenewed, renewed, halone, if_neg Bool.false_ne_true]
    rw [declaring, hname]
    exact congrArg some ((rewritten_replaceVariable hident _).unique hcut)
  · rw [declaring, hname]
    exact leftAlone_iff_of_blank hident hblank

/-- The error about a variable. -/
def shadeError : CompileError := { kind := .undefinedVariable, name := "v".toList }

/-- A file of two declarations of it, one in a block. -/
def shadeFile : Candidate :=
  ⟨"a.scss".toList, "a.scss".toList, "a.css".toList, [],
    ["  $v: red;".toList, ".a \x7b $v: $v; \x7d".toList, []], false⟩

/-- The declaration on the first line. -/
def firstShade : Declaration := ⟨⟨2, 10⟩, "v".toList, "red".toList, false⟩

/-- The declaration in the block. -/
def secondShade : Declaration := ⟨⟨16, 23⟩, "v".toList, "$v".toList, false⟩

theorem shadeFile_repaired : ∃ c', (fix shadeError [shadeFile]).1[0]? = some c' ∧
    c'.lines[0]? = some "  $v: red;".toList ∧ c'.lines[1]? = some ".a \x7b var(--v): var(--v); \x7d".toList := by
  have hlines : ∀ l ∈ shadeFile.lines, '\n' ∉ l := by decide +kernel
  have hfile : [shadeFile][0]? = some shadeFile := rfl
  have hfirst : firstShade ∈ Declaration.find shadeFile.content := by decide +kernel
  have hsecond : secondShade ∈ Declaration.find shadeFile.content := by decide +kernel
  obtain ⟨c', hfix, -, hkept, -, hblank⟩ :=
    declaration_repaired shadeError [shadeFile] rfl hfile (by decide +kernel) hlines hfirst rfl
  obtain ⟨c'', hfix', -, -, hlost, -⟩ :=
    declaration_repaired shadeError [shadeFile] rfl hfile (by decide +kernel) hlines hsecond rfl
  obtain rfl : c' = c'' := Option.some.inj (hfix.symm.trans hfix')
  have hcolon : LeftAlone shadeError.name (declaring shadeFile.content firstShade) = true :=
    (hblank (List.all_eq_true.1 (by decide +kernel))).2 (by decide +kernel)
  have huse : LeftAlone shadeError.name (declaring shadeFile.content secondShade) = false := by decide +kernel
  have hline : declaring shadeFile.content firstShade = "  $v: red;".toList := by decide +kernel
  have hrewritten : replaceVariable shadeError.name (leftOf shadeFile.content secondShade) ++
      (expression shadeError.name ++ replaceVariable shadeError.name (rightOf shadeFile.content secondShade)) =
        ".a \x7b var(--v): var(--v); \x7d".toList := by decide +kernel
  have hnumber : lineNumberAt shadeFile.content firstShade.span.start - 1 = 0 := by decide +kernel
  have hnumber' : lineNumberAt shadeFile.content secondShade.span.start - 1 = 1 := by decide +kernel
  exact ⟨c', hfix, hline ▸ hnumber ▸ hkept hcolon, hrewritten ▸ hnumber' ▸ hlost huse⟩

/-- **Declarations that the scanner finds are destroyed**: with a blank before the colon, or behind a brace. -/
theorem declarations_destroyed :
    (Declaration.find "$v : red;\n".toList).map (·.name) = ["v".toList] ∧
    (fix shadeError [{ shadeFile with lines := lines "$v : red;\n".toList }]).1.map (·.content) =
      ["var(--v) : red;\n".toList] ∧
    (Declaration.find ".a \x7b $v: red; \x7d\n".toList).map (·.name) = ["v".toList] ∧
    (fix shadeError [{ shadeFile with lines := lines ".a \x7b $v: red; \x7d\n".toList }]).1.map (·.content) =
      [".a \x7b var(--v): red; \x7d\n".toList] := by
  decide +kernel

end Flatsheet.Repair
