import Flatsheet.Proofs.Style.Sweep
import Flatsheet.Style.Hoist

/-!
# `Proofs.Style.Usages` — converting references, as edits of the whole text

References are converted line by line, and in each line from the place on where no directive is in the way.
Taken together these are edits of the whole text (`usageEdits`), which lie apart from each other, and each of
which puts `var(--name)` in place of a `$name` of the code mask (`Usage`). Edits of two texts that follow each
other are put together by `Edits.append`; everything else is an instance of that.

* `convertUsages_eq`: converting usages is making these edits
* `balanced_convertUsages`: the braces pair up as before
-/

namespace Flatsheet.Style

open Text Check Mask

variable {t a b p code m r : Text} {es fs : List (Span × Text)} {e : Span × Text} {tracker : Tracker}

/-! ## Edits of texts that follow each other -/

/-- The edit moved to the right. -/
def shiftEdit (n : Nat) (e : Span × Text) : Span × Text := (e.1.shift n, e.2)

theorem replaceSpan_shift (a t : Text) (s : Span) (q : Text) :
    replaceSpan (a ++ t) (s.shift a.length) q = a ++ replaceSpan t s q := by
  unfold replaceSpan Span.shift
  simp only [Nat.add_comm _ a.length, List.take_length_add_append, List.drop_length_add_append,
    List.append_assoc]

theorem replaceSpans_shift (a t : Text) (es : List (Span × Text)) :
    replaceSpans (a ++ t) (es.map (shiftEdit a.length)) = a ++ replaceSpans t es := by
  induction es with
  | nil => rfl
  | cons e es ih =>
    show replaceSpan (replaceSpans (a ++ t) (es.map (shiftEdit a.length))) (e.1.shift a.length) e.2 = _
    rw [ih, replaceSpan_shift]
    rfl

theorem replaceSpans_append (t : Text) (es fs : List (Span × Text)) :
    replaceSpans t (es ++ fs) = replaceSpans (replaceSpans t fs) es := List.foldr_append

/-- Edits of the first of two texts leave the second one alone. -/
theorem replaceSpans_left (apart : Apart t (es.map (·.1))) (b : Text) :
    replaceSpans (t ++ b) es = replaceSpans t es ++ b := by
  induction es with
  | nil => rfl
  | cons e es ih =>
    obtain ⟨hordered, hinside⟩ := apart
    rw [List.map_cons, List.pairwise_cons] at hordered
    obtain ⟨hle, hlength⟩ := hinside e.1 List.mem_cons_self
    have hothers := ih ⟨hordered.2, fun s hs => hinside s (List.mem_cons_of_mem e.1 hs)⟩
    obtain ⟨-, hstop⟩ := take_replaceSpans hlength fun f hf => hordered.1 f.1 (List.mem_map_of_mem hf)
    show replaceSpan (replaceSpans (t ++ b) es) e.1 e.2 = replaceSpan (replaceSpans t es) e.1 e.2 ++ b
    rw [hothers]
    unfold replaceSpan
    rw [List.take_append_of_le_length (by omega), List.drop_append_of_le_length hstop, List.append_assoc,
      List.append_assoc, List.append_assoc]

/-- **A reference and what takes its place**: the code mask shows `$name` there. -/
def Usage (code : Text) (e : Span × Text) : Prop :=
  ∃ name, slice code e.1.start e.1.stop = '$' :: name ∧ (∀ x ∈ name, isIdent x = true) ∧
    e.2 = Reference.replacement name

/-- **Edits of a text, whose code mask is given, that convert references.** -/
structure Edits (t code : Text) (es : List (Span × Text)) : Prop where
  apart : Apart t (es.map (·.1))
  usage : ∀ e ∈ es, Usage code e

theorem edits_nil : Edits t code [] := ⟨⟨.nil, nofun⟩, nofun⟩

theorem slice_left {i j : Nat} (h : j ≤ code.length) : slice (code ++ r) i j = slice code i j := by
  unfold slice
  rw [← List.drop_take, ← List.drop_take, List.take_append_of_le_length h]

theorem slice_shift {s : Span} (m code : Text) :
    slice (m ++ code) (s.shift m.length).start (s.shift m.length).stop = slice code s.start s.stop := by
  unfold slice Span.shift
  simp only [Nat.add_comm _ m.length, List.drop_length_add_append, Nat.add_sub_add_left]

/-- **Edits of texts that follow each other.** -/
theorem Edits.append (hes : Edits a m es) (hfs : Edits b code fs) (hlength : a.length = m.length) :
    Edits (a ++ b) (m ++ code) (es ++ fs.map (shiftEdit a.length)) ∧
      replaceSpans (a ++ b) (es ++ fs.map (shiftEdit a.length)) = replaceSpans a es ++ replaceSpans b fs := by
  have hspans : (es ++ fs.map (shiftEdit a.length)).map (·.1) =
      es.map (·.1) ++ (fs.map (·.1)).map (·.shift a.length) := by
    rw [List.map_append, List.map_map, List.map_map]
    rfl
  refine ⟨⟨⟨?_, ?_⟩, ?_⟩, ?_⟩
  · rw [hspans, List.pairwise_append]
    refine ⟨hes.apart.1, ?_, ?_⟩
    · rw [List.pairwise_map]
      refine hfs.apart.1.imp ?_
      intro s s' hle
      exact Nat.add_le_add_right hle a.length
    · -- all edits of the second text lie behind the first one
      intro s hs s' hs'
      obtain ⟨s'', -, rfl⟩ := List.mem_map.1 hs'
      have hstop := (hes.apart.2 s hs).2
      exact Nat.le_trans hstop (Nat.le_add_left _ _)
  · rw [hspans, List.length_append]
    intro s hs
    rcases List.mem_append.1 hs with hs | hs
    · have hinside := hes.apart.2 s hs
      omega
    · obtain ⟨s', hs', rfl⟩ := List.mem_map.1 hs
      have hinside := hfs.apart.2 s' hs'
      simp only [Span.shift]
      omega
  · intro e he
    rcases List.mem_append.1 he with he | he
    · obtain ⟨name, hslice, hname, hpiece⟩ := hes.usage e he
      refine ⟨name, ?_, hname, hpiece⟩
      have hstop := (hes.apart.2 e.1 (List.mem_map_of_mem he)).2
      rw [slice_left (by omega), hslice]
    · obtain ⟨f, hf, rfl⟩ := List.mem_map.1 he
      obtain ⟨name, hslice, hname, hpiece⟩ := hfs.usage f hf
      refine ⟨name, ?_, hname, hpiece⟩
      rw [shiftEdit, hlength, slice_shift, hslice]
  · rw [replaceSpans_append, replaceSpans_shift, replaceSpans_left hes.apart]

/-! ## References of a line -/

/-- A reference reaches from its dollar sign to the end of its name. -/
theorem Reference.look_found {c : Cursor} {n : Nat} {found : Span × Text} (h : c.At code)
    (hlook : Reference.look c = .found found n) :
    (found.1.start = c.pos ∧ found.1.stop = c.pos + n ∧ 0 < n ∧ c.pos + n ≤ code.length) ∧
      slice code found.1.start found.1.stop = '$' :: found.2 ∧ ∀ x ∈ found.2, isIdent x = true := by
  unfold Reference.look at hlook
  split at hlook
  · next r hrest =>
    split at hlook
    · cases hlook
      have hlength := h.length_rest
      rw [hrest, List.length_cons] at hlength
      have hname := (List.takeWhile_sublist isIdent (l := r)).length_le
      have hshown : slice code c.pos (c.pos + 1 + (r.takeWhile isIdent).length) =
          '$' :: r.takeWhile isIdent := by
        have hprefix : r.take (r.takeWhile isIdent).length = r.takeWhile isIdent :=
          (List.prefix_iff_eq_take.1 (List.takeWhile_prefix isIdent)).symm
        have hcount : c.pos + 1 + (r.takeWhile isIdent).length - c.pos =
            (r.takeWhile isIdent).length + 1 := by omega
        rw [slice, ← h.rest, hrest, hcount, List.take_succ_cons, hprefix]
      refine ⟨⟨rfl, ?_, ?_, ?_⟩, hshown, ?_⟩
      · show c.pos + 1 + (r.takeWhile isIdent).length = c.pos + (1 + (r.takeWhile isIdent).length)
        omega
      · omega
      · omega
      · exact List.all_eq_true.1 List.all_takeWhile
    · cases hlook
  · cases hlook

theorem apart_sublist {spans spans' : List Span} (h : Apart t spans) (hsub : spans'.Sublist spans) :
    Apart t spans' :=
  ⟨h.1.sublist hsub, fun s hs => h.2 s (hsub.mem hs)⟩

/-- **The replacements of references are such edits.** -/
theorem edits_of_references (t code : Text) (hlength : t.length = code.length) :
    Edits t code (Reference.edits t code) := by
  have hspans : Spans Reference.look code (·.1) := fun c a n hc hlook => (Reference.look_found hc hlook).1
  have hsub : ((Reference.edits t code).map (·.1)).Sublist ((Reference.find code).map (·.1)) := by
    unfold Reference.edits
    rw [List.map_map]
    exact List.filter_sublist.map _
  refine ⟨?_, ?_⟩
  · have happart : Apart code ((Reference.find code).map (·.1)) := sweep_apart hspans
    have hkept := apart_sublist happart hsub
    refine ⟨hkept.1, ?_⟩
    rw [hlength]
    exact hkept.2
  · intro e he
    obtain ⟨found, hfound, rfl⟩ := List.mem_map.1 he
    obtain ⟨c, n, hc, hlook⟩ := mem_sweep (List.mem_filter.1 hfound).1
    obtain ⟨-, hslice, hname⟩ := Reference.look_found hc hlook
    exact ⟨found.2, hslice, hname, rfl⟩

/-! ## References of a text -/

/-- The conversions of references in a line. -/
def lineEdits (tracker : Tracker) (line code : Text) : List (Span × Text) :=
  match if code.contains '$' then tracker.convertFrom? code else none with
  | none => []
  | some start =>
    if start < line.length then
      (Reference.edits (line.drop start) (code.drop start)).map (shiftEdit start)
    else []

/-- The conversions of references in the text made of the lines. -/
def usageEdits (tracker : Tracker) : List (Text × Text) → List (Span × Text)
  | [] => []
  | (line, code) :: rest =>
    lineEdits tracker line code ++
      (usageEdits (tracker.advance code) rest).map (shiftEdit (line.length + 1))

/-- A line with its references converted as the tracker allows, and their number. -/
def convertedLine (tracker : Tracker) (line code : Text) : Text × Nat :=
  match if code.contains '$' then tracker.convertFrom? code else none with
  | none => (line, 0)
  | some start =>
    if start < line.length then
      let (tail, n) := Reference.convertMasked (line.drop start) (code.drop start)
      (line.take start ++ tail, n)
    else (line, 0)

theorem convertLines_cons (tracker : Tracker) (line code : Text) (ls : List (Text × Text)) :
    convertLines tracker ((line, code) :: ls) =
      ((convertedLine tracker line code).1 :: (convertLines (tracker.advance code) ls).1,
        (convertedLine tracker line code).2 + (convertLines (tracker.advance code) ls).2) := rfl

/-- Converting a line is making its edits. -/
theorem convertedLine_eq (tracker : Tracker) (hlength : t.length = code.length) :
    Edits t code (lineEdits tracker t code) ∧
      convertedLine tracker t code =
        (replaceSpans t (lineEdits tracker t code), (lineEdits tracker t code).length) := by
  unfold lineEdits convertedLine
  split
  · exact ⟨edits_nil, rfl⟩
  · next start hstart =>
    by_cases hinside : start < t.length
    · rw [if_pos hinside, if_pos hinside]
      have hfront : (t.take start).length = start := List.length_take_of_le (Nat.le_of_lt hinside)
      have hfront' : (code.take start).length = start := List.length_take_of_le (by omega)
      have htail : (t.drop start).length = (code.drop start).length := by
        rw [List.length_drop, List.length_drop, hlength]
      have hbefore : Edits (t.take start) (code.take start) [] := edits_nil
      obtain ⟨hedits, hreplace⟩ := hbefore.append
        (edits_of_references (t.drop start) (code.drop start) htail) (hfront.trans hfront'.symm)
      rw [List.take_append_drop, List.nil_append, hfront] at hedits hreplace
      rw [List.take_append_drop] at hedits
      refine ⟨hedits, ?_⟩
      rw [hreplace, List.length_map]
      rfl
    · rw [if_neg hinside, if_neg hinside]
      exact ⟨edits_nil, rfl⟩

/-- **Converting lines is making the edits of the text that they make.** -/
theorem convertLines_eq (tracker : Tracker) {ls : List (Text × Text)}
    (hlength : ∀ l ∈ ls, l.1.length = l.2.length) :
    Edits (unlines (ls.map (·.1))) (unlines (ls.map (·.2))) (usageEdits tracker ls) ∧
      unlines (convertLines tracker ls).1 = replaceSpans (unlines (ls.map (·.1))) (usageEdits tracker ls) ∧
      (convertLines tracker ls).2 = (usageEdits tracker ls).length := by
  induction ls generalizing tracker with
  | nil => exact ⟨edits_nil, rfl, rfl⟩
  | cons l ls ih =>
    obtain ⟨line, code⟩ := l
    have hline : line.length = code.length := hlength (line, code) List.mem_cons_self
    obtain ⟨hedits, hconverted⟩ := convertedLine_eq tracker hline
    obtain ⟨hothers, htext, hcount⟩ := ih (tracker.advance code) fun l hl =>
      hlength l (List.mem_cons_of_mem _ hl)
    rw [convertLines_cons, usageEdits, hconverted]
    by_cases hnone : ls = []
    · subst hnone
      simp only [usageEdits, convertLines, unlines, List.map_cons, List.map_nil, List.append_nil, Nat.add_zero]
      exact ⟨hedits, trivial, trivial⟩
    · have hmap : ls.map (·.1) ≠ [] := by simpa using hnone
      have hmap' : ls.map (·.2) ≠ [] := by simpa using hnone
      have hrest : (convertLines (tracker.advance code) ls).1 ≠ [] := by
        obtain ⟨l', ls', rfl⟩ := List.exists_cons_of_ne_nil hnone
        rw [convertLines_cons]
        exact List.cons_ne_nil _ _
      -- the line feed is added to the line, and the other lines to both
      have hfeed : Edits ['\n'] ['\n'] [] := edits_nil
      obtain ⟨hended, hreplaced⟩ := hedits.append hfeed hline
      rw [List.map_nil, List.append_nil] at hended hreplaced
      have hlength' : (line ++ ['\n']).length = (code ++ ['\n']).length := by
        rw [List.length_append, List.length_append, hline]
      obtain ⟨hall, hreplaced'⟩ := hended.append hothers hlength'
      rw [List.length_append, List.length_singleton, List.append_assoc, List.append_assoc] at hall
      rw [List.length_append, List.length_singleton, List.append_assoc, hreplaced, List.append_assoc]
        at hreplaced'
      rw [List.map_cons, List.map_cons, unlines_cons _ hmap, unlines_cons _ hmap', unlines_cons _ hrest]
      refine ⟨hall, ?_, ?_⟩
      · rw [htext]
        exact hreplaced'.symm
      · rw [List.length_append, List.length_map, hcount]

/-- The conversions of references in a text. -/
def usages (t : Text) : List (Span × Text) := usageEdits {} ((lines t).zip (lines (codeMask t)))

theorem eq_of_mem_zip {α β : Type} {f : α → β} {as bs : List α} (h : as.map f = bs.map f) {l : α × α}
    (hl : l ∈ as.zip bs) : f l.1 = f l.2 := by
  induction as generalizing bs with
  | nil => cases hl
  | cons a as ih =>
    cases bs with
    | nil => cases hl
    | cons b bs =>
      simp only [List.map_cons, List.cons.injEq] at h
      rcases List.mem_cons.1 hl with rfl | hl
      · exact h.1
      · exact ih h.2 hl

/-- **Converting the usages of a text is making the edits of the text that they make.** -/
theorem convertUsages_eq (t : Text) :
    Edits t (codeMask t) (usages t) ∧ convertUsages t = (replaceSpans t (usages t), (usages t).length) := by
  have hlengths : (lines t).map List.length = (lines (codeMask t)).map List.length :=
    (lengths_lines_mask t).symm
  have hlength : (lines t).length = (lines (codeMask t)).length := by
    simpa using congrArg List.length hlengths
  have hfirst : ((lines t).zip (lines (codeMask t))).map (·.1) = lines t :=
    List.map_fst_zip (Nat.le_of_eq hlength)
  have hsecond : ((lines t).zip (lines (codeMask t))).map (·.2) = lines (codeMask t) :=
    List.map_snd_zip (Nat.le_of_eq hlength.symm)
  obtain ⟨hedits, htext, hcount⟩ := convertLines_eq {} fun l hl => eq_of_mem_zip hlengths hl
  rw [hfirst, hsecond, unlines_lines, unlines_lines] at hedits
  rw [hfirst, unlines_lines] at htext
  exact ⟨hedits, Prod.ext htext hcount⟩

/-! ## Braces -/

/-- A name with a few other bytes around it is whole. -/
theorem whole_of_name {name front back : Text} (hname : ∀ x ∈ name, isIdent x = true)
    (hfront : ∀ x ∈ front, x = '$' ∨ x = '(' ∨ isIdent x = true) (hback : ∀ x ∈ back, x = ')') :
    Whole (front ++ name ++ back) := by
  have hbytes : ∀ x ∈ front ++ name ++ back, x = '$' ∨ x = '(' ∨ x = ')' ∨ isIdent x = true := by
    intro x hx
    rcases List.mem_append.1 hx with hx | hx
    · rcases List.mem_append.1 hx with hx | hx
      · rcases hfront x hx with h | h | h
        · exact .inl h
        · exact .inr (.inl h)
        · exact .inr (.inr (.inr h))
      · exact .inr (.inr (.inr (hname x hx)))
    · exact .inr (.inr (.inl (hback x hx)))
  -- none of the bytes that mean something is among them
  have habsent : ∀ x, isIdent x = false → x ≠ '$' → x ≠ '(' → x ≠ ')' → x ∉ front ++ name ++ back := by
    intro x hident hdollar hopen hclose hx
    rcases hbytes x hx with h | h | h | h
    · exact hdollar h
    · exact hopen h
    · exact hclose h
    · rw [hident] at h
      cases h
  have hplain : Plain (front ++ name ++ back) := by
    intro x hx
    refine ⟨?_, ?_, ?_⟩ <;> (rintro rfl; exact habsent _ rfl (by decide) (by decide) (by decide) hx)
  have hlast : ∀ x, isIdent x = false → x ≠ '$' → x ≠ '(' → x ≠ ')' →
      (front ++ name ++ back).getLast? ≠ some x :=
    fun x h₁ h₂ h₃ h₄ h => habsent x h₁ h₂ h₃ h₄ (List.mem_of_getLast? h)
  exact whole_of_plain hplain (habsent '{' rfl (by decide) (by decide) (by decide))
    (habsent '}' rfl (by decide) (by decide) (by decide))
    (hlast ':' rfl (by decide) (by decide) (by decide)) (hlast '#' rfl (by decide) (by decide) (by decide))

theorem customProperty_of_ident {name : Text} (hname : ∀ x ∈ name, isIdent x = true) :
    customProperty name = "--".toList ++ name := by
  unfold customProperty
  split
  · next rest =>
    cases hname '$' List.mem_cons_self
  · rfl

theorem replacement_of_ident {name : Text} (hname : ∀ x ∈ name, isIdent x = true) :
    Reference.replacement name = "var(--".toList ++ name ++ ")".toList := by
  rw [Reference.replacement, customProperty_of_ident hname, ← List.append_assoc]
  rfl

/-- **A reference can be exchanged for its expression.** -/
theorem exchange_of_usage (h : Usage (codeMask t) e) : Exchange t e.1 e.2 := by
  obtain ⟨name, hslice, hname, hpiece⟩ := h
  have hdollar : (codeMask t)[e.1.start]? = some '$' := by
    have hhead : (slice (codeMask t) e.1.start e.1.stop)[0]? = some '$' := by
      rw [hslice]
      rfl
    rw [slice, List.getElem?_take, List.getElem?_drop, Nat.add_zero] at hhead
    split at hhead
    · exact hhead
    · cases hhead
  -- a name has no blank in it, so the mask shows it as it is in the text
  have hcut : slice t e.1.start e.1.stop = '$' :: name := by
    apply slice_of_codeMask hslice
    simp only [List.mem_cons, not_or]
    refine ⟨by decide, ?_⟩
    intro hspace
    cases hname ' ' hspace
  have hnew : e.2 = "var(--".toList ++ name ++ ")".toList := by
    rw [hpiece, replacement_of_ident hname]
  refine ⟨⟨?_, ?_, ?_, ?_⟩, joins_of_leads hdollar (by decide)⟩
  · rw [hcut]
    have hwhole : Whole (['$'] ++ name ++ []) := whole_of_name hname (by simp) (by simp)
    rw [List.append_nil] at hwhole
    exact hwhole
  · have hcode := after_of_masked hdollar rfl ⟨by decide, by decide⟩
    have hhead : e.2.head? = some 'v' := by
      rw [hnew]
      rfl
    rw [hhead]
    exact ⟨after_code_of_inert hcode ⟨by decide, by decide⟩, by simp, by simp⟩
  · have hfront : ("var(--".toList.all fun x => x = '$' || x = '(' || isIdent x) = true := by decide
    rw [hnew]
    refine whole_of_name hname ?_ (by simp)
    intro x hx
    simpa [or_assoc] using List.all_eq_true.1 hfront x hx
  · rw [hnew]
    exact List.cons_ne_nil _ _

/-- **Where usages are converted, the braces pair up as before.** -/
theorem balanced_convertUsages (t : Text) : Balanced (convertUsages t).1 ↔ Balanced t := by
  obtain ⟨hedits, hconverted⟩ := convertUsages_eq t
  rw [hconverted]
  apply balanced_replaceSpans hedits.apart
  intro e he
  exact exchange_of_usage (hedits.usage e he)

end Flatsheet.Style
