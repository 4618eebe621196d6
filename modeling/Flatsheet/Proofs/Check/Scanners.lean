import Flatsheet.Check.Syntax
import Flatsheet.Proofs.Style.Abreast
import Mathlib.Data.List.Find

/-!
# `Proofs.Check.Scanners` — what the checks scan for, on a text that loses a blank
-/

namespace Flatsheet.Check

open Text Style

variable {t t' w w' word : Text} {c : Cursor} {y : Char} {n : Nat}

/-- No word begins at a blank. -/
theorem startsWith_blank (hy : c.byte? = some y) (blank : isBlank y = true) (hword : IsWord word)
    (hne : word ≠ []) : startsWith c.rest word = false := by
  obtain ⟨r, hr⟩ := List.head?_eq_some_iff.1 hy
  have hnone := startsWith_append_of_stops hword (stops_cons blank r) []
  rw [List.nil_append] at hnone
  rw [hr, hnone]
  cases word with
  | nil => exact absurd rfl hne
  | cons x word => rfl

/-! ## Pseudo-elements -/

theorem lookPseudoElement_eq (c : Cursor) : lookPseudoElement c =
    if startsWith c.rest "::".toList then
      .found (c.pos, lower ((c.advance 2).rest.takeWhile isIdent)) (2 + spanLength isIdent (c.advance 2).rest)
    else .nothing := rfl

theorem overlooks_pseudoElement : OverlooksBlanks lookPseudoElement := by
  intro c y hy blank
  rw [lookPseudoElement_eq, startsWith_blank hy blank (by decide) (by decide), if_neg Bool.false_ne_true]

theorem alike_pseudoElement : SeesAlike (·.2) lookPseudoElement lookPseudoElement := by
  intro a x b c c' y h hy hy' shown
  have hword : IsWord "::".toList := by decide
  rw [lookPseudoElement_eq, lookPseudoElement_eq, ← h.startsWith_eq hword]
  split
  · next hstarts =>
    have hname := h.advance_word hword hstarts
    refine .found ?_ ⟨by omega, by omega⟩ ?_
    · exact congrArg lower (hname.takeWhile_eq fun _ => not_isIdent_of_blank)
    · rw [Cursor.advance_add, Cursor.advance_add]
      exact hname.skip skips_ident
  · exact .nothing

/-! ## Variables -/

theorem lookVariable_eq (c : Cursor) : lookVariable c =
    if startsWith c.rest "$".toList && (c.advance 1).byte?.any fun b => b.isAlpha || b = '_' then
      .found ((c.advance 1).rest.takeWhile isIdent) (1 + spanLength isIdent (c.advance 1).rest)
    else .nothing := by
  unfold lookVariable
  split
  · next r hr =>
    have hrest : (c.advance 1).rest = r := by
      show c.rest.drop 1 = r
      rw [hr]
      rfl
    have hstarts : startsWith c.rest "$".toList = true := by
      rw [hr]
      rfl
    have hbyte : (c.advance 1).byte? = r.head? := congrArg List.head? hrest
    rw [hstarts, Bool.true_and, hbyte, hrest]
  · next hnone =>
    have hstarts : startsWith c.rest "$".toList = false := by
      rw [Bool.eq_false_iff]
      intro h
      obtain ⟨r, hr⟩ := List.isPrefixOf_iff_prefix.1 h
      exact hnone r hr.symm
    rw [hstarts, Bool.false_and, if_neg Bool.false_ne_true]

theorem overlooks_variable : OverlooksBlanks lookVariable := by
  intro c y hy blank
  rw [lookVariable_eq, startsWith_blank hy blank (by decide) (by decide), Bool.false_and, if_neg Bool.false_ne_true]

theorem alike_variable : SeesAlike id lookVariable lookVariable := by
  intro a x b c c' y h hy hy' shown
  have hword : IsWord "$".toList := by decide
  rw [lookVariable_eq, lookVariable_eq, ← h.startsWith_eq hword]
  cases hstarts : startsWith c.rest "$".toList with
  | false => exact .nothing
  | true =>
    have hname : Abreast a x b (c.advance 1) (c'.advance 1) := h.advance_word hword hstarts
    have hfirst : ((c.advance 1).byte?.any fun b => b.isAlpha || b = '_') =
        (c'.advance 1).byte?.any fun b => b.isAlpha || b = '_' := by
      apply hname.byte?_any
      intro y blank
      have hunderscore : y ≠ '_' := by
        rintro rfl
        cases blank
      simp [not_isAlpha_of_blank blank, hunderscore]
    rw [hfirst]
    split
    · refine .found ?_ ⟨by omega, by omega⟩ ?_
      · exact hname.takeWhile_eq fun _ => not_isIdent_of_blank
      · rw [Cursor.advance_add, Cursor.advance_add]
        exact hname.skip skips_ident
    · exact .nothing

/-! ## Includes -/

theorem overlooks_include : OverlooksBlanks lookInclude := by
  intro c y hy blank
  unfold lookInclude
  rw [startsWith_blank hy blank (by decide) (by decide), if_neg Bool.false_ne_true]

theorem alike_include : SeesAlike id lookInclude lookInclude := by
  intro a x b c c' y h hy hy' shown
  have hword : IsWord "@include".toList := by decide
  unfold lookInclude
  rw [← h.startsWith_eq hword]
  split
  · next hstarts =>
    have hname : Abreast a x b ((c.advance 8).skip isBlank) ((c'.advance 8).skip isBlank) :=
      (h.advance_word hword hstarts).skip fun _ _ blank => blank
    have hlt : ∀ {d : Cursor} {w}, d.Reads w → startsWith d.rest "@include".toList = true →
        d.pos < ((d.advance 8).skip isBlank).pos := by
      intro d w hreads hstarts
      have hpos : (d.advance 8).pos = d.pos + 8 := (hreads.at.word hstarts).2
      have hskip := (d.advance 8).le_pos_skip isBlank
      omega
    have hfirst := hlt h.reads.1 hstarts
    have hsecond := hlt h.reads.2 (h.startsWith_eq hword ▸ hstarts)
    obtain ⟨hreach, hreach'⟩ := h.advance_eq hname (Nat.le_of_lt hfirst) (Nat.le_of_lt hsecond)
    refine .found ?_ ⟨by omega, by omega⟩ ?_
    · exact hname.takeWhile_eq fun _ => not_isIdent_of_blank
    · rw [Cursor.advance_add, Cursor.advance_add, hreach, hreach']
      exact hname.skip skips_ident
  · exact .nothing

/-! ## Calls of colour functions -/

theorem wordHere_abreast {a b : Text} {x : Char} {c' : Cursor} (h : Abreast a x b c c') (hword : IsWord word)
    (hy : c.byte? = some y) (shown : isBlank y = false) :
    wordHere c.byteBefore? word c.rest = wordHere c'.byteBefore? word c'.rest := by
  unfold wordHere
  rw [← h.startsWith_eq hword, any_eq_of_shown (fun _ hz => h.byteBefore?_iff hz shown hy) fun _ => not_isIdent_of_blank]
  cases hstarts : startsWith c.rest word with
  | false => rfl
  | true =>
    have hafter := (h.advance_word hword hstarts).byte?_any fun _ => not_isIdent_of_blank
    show (true && _ && !(c.advance word.length).byte?.any isIdent) =
      (true && _ && !(c'.advance word.length).byte?.any isIdent)
    rw [hafter]

theorem isOtherName_abreast {a b : Text} {x : Char} {c' : Cursor} (h : Abreast a x b c c')
    (hy : c.byte? = some y) (shown : isBlank y = false) :
    HelperCall.isOtherName c = HelperCall.isOtherName c' := by
  have hbefore : ∀ z, isBlank z = false →
      decide (c.byteBefore? = some z) = decide (c'.byteBefore? = some z) := fun z hz =>
    decide_eq_decide.2 (h.byteBefore?_iff hz shown hy)
  unfold HelperCall.isOtherName
  rw [hbefore '$' rfl, hbefore '.' rfl]
  congr 1
  simp only [List.any_cons, List.any_nil]
  rw [h.seen_word (by decide) shown hy, h.seen_word (by decide) shown hy, h.seen_word (by decide) shown hy]

theorem isWord_of_colorHelper {name : Text} (h : name ∈ colorHelpers) : IsWord name ∧ name ≠ [] := by
  have hall : ∀ name ∈ colorHelpers, IsWord name ∧ name ≠ [] := by decide
  exact hall name h

theorem overlooks_helper (t : Text) : OverlooksBlanks (HelperCall.look t) := by
  intro c y hy blank
  unfold HelperCall.look
  have hnone : (colorHelpers.find? fun name => wordHere c.byteBefore? name c.rest) = none := by
    rw [List.find?_eq_none]
    intro name hname
    obtain ⟨hword, hne⟩ := isWord_of_colorHelper hname
    simp [wordHere, startsWith_blank hy blank hword hne]
  rw [hnone]

theorem alike_helper (t t' : Text) : SeesAlike (·.name) (HelperCall.look t) (HelperCall.look t') := by
  intro a x b c c' y h hy hy' shown
  have hfind : (colorHelpers.find? fun name => wordHere c.byteBefore? name c.rest) =
      colorHelpers.find? fun name => wordHere c'.byteBefore? name c'.rest :=
    List.find?_congr fun name hname => wordHere_abreast h (isWord_of_colorHelper hname).1 hy shown
  unfold HelperCall.look
  rw [← hfind, ← isOtherName_abreast h hy shown]
  split
  · exact .nothing
  · next name hname =>
    have hstarts : startsWith c.rest name = true := by
      have hhere := List.find?_some hname
      simp only [wordHere, Bool.and_eq_true] at hhere
      exact hhere.1.1
    have hword := (isWord_of_colorHelper (List.mem_of_find?_eq_some hname)).1
    have hstart : Abreast a x b ((c.advance name.length).skip isSpaceOrTab)
        ((c'.advance name.length).skip isSpaceOrTab) :=
      (h.advance_word hword hstarts).skip fun hnewline => absurd hnewline (by decide)
    have hopen : decide (((c.advance name.length).skip isSpaceOrTab).byte? ≠ some '(') =
        decide (((c'.advance name.length).skip isSpaceOrTab).byte? ≠ some '(') :=
      decide_eq_decide.2 (not_congr (hstart.byte?_iff rfl))
    dsimp only
    rw [← hopen]
    split
    · exact .nothing
    · have hgroup : Option.Rel (Abreast a x b) (Cursor.group? '(' ')' _) (Cursor.group? '(' ')' _) :=
        hstart.group? rfl rfl
      generalize hstop : Cursor.group? '(' ')' ((c.advance name.length).skip isSpaceOrTab) = stop? at hgroup
      generalize hstop' : Cursor.group? '(' ')' ((c'.advance name.length).skip isSpaceOrTab) = stop?' at hgroup
      cases hgroup with
      | none => exact .nothing
      | @some stop stop' hstops =>
        -- both calls end behind their beginning, so both cursors can be moved there
        have hlt : ∀ {d e : Cursor} {w : Text}, d.Reads w →
            Cursor.group? '(' ')' ((d.advance name.length).skip isSpaceOrTab) = some e → d.pos < e.pos := by
          intro d e w hreads hgroup
          have hle := Nat.le_trans (d.le_pos_advance name.length) ((d.advance name.length).le_pos_skip isSpaceOrTab)
          exact Nat.lt_of_le_of_lt hle (((hreads.at.advance _).skip _).group hgroup).2.1
        have hfirst := hlt h.reads.1 hstop
        have hsecond := hlt h.reads.2 hstop'
        obtain ⟨hreach, hreach'⟩ := h.advance_eq hstops (Nat.le_of_lt hfirst) (Nat.le_of_lt hsecond)
        refine .found rfl ⟨by omega, by omega⟩ ?_
        rw [hreach, hreach']
        exact hstops

end Flatsheet.Check
