import Flatsheet.Proofs.Style.References
import Flatsheet.Proofs.Style.Remainder

/-!
# `Proofs.Style.Interpolation` — what becomes of the references in interpolations

A reference outside all declarations is still there when the declarations have been cut out, with the same name
(`Stands.codeMask_remainder`). Then it is converted or left as it is, and there is nothing in between: either
`var(--name)` or `$name` is in its place in the result (`convertUsages_at`).

In an interpolation it is to be left as it is. The interpolations are looked for line by line, from the place on where
conversion begins in the line, and in the line as it is written (`converts_iff`). So one is seen that begins there or
behind, with no brace in a comment or a string on the way (`hoist_keeps_interpolated`). One that a line break crosses
is not seen on the lines that follow (`crossing_interpolation_converted`).
-/

namespace Flatsheet.Style

open Text Check Mask

variable {t r name : Text} {i : Nat} {d : Declaration} {s : Span}

theorem not_isBlank_of_isIdent {x : Char} (h : isIdent x = true) : isBlank x = false := by
  rw [Bool.eq_false_iff]
  intro hblank
  rw [not_isIdent_of_blank hblank] at h
  cases h

/-- A reference that is written begins one. -/
theorem refers_reference (h : IsName name) (r : Text) : refers (reference name ++ r) 0 = true := by
  obtain ⟨hstart, -⟩ := h
  cases name with
  | nil => cases hstart
  | cons x xs => exact hstart

/-- It has its name if no byte of a name is behind it. -/
theorem nameAt_reference (h : IsName name) (hr : ∀ x, r.head? = some x → isIdent x = false) :
    nameAt (reference name ++ r) 0 = name := takeWhile_stretch h.2 hr

/-! ## A reference in the text -/

/-- The reference that the code mask shows at an offset. -/
def referenceAt (t : Text) (i : Nat) : Text := reference (nameAt (codeMask t) i)

/-- The offset behind it. -/
def endAt (t : Text) (i : Nat) : Nat := i + (referenceAt t i).length

/-- What the code mask shows from the reference on. -/
theorem drop_of_refers (h : refers (codeMask t) i = true) :
    (codeMask t).drop i = referenceAt t i ++ ((codeMask t).drop (i + 1)).dropWhile isIdent := by
  obtain ⟨hi, hget⟩ := List.getElem?_eq_some_iff.1 (dollar_of_refers h)
  rw [List.drop_eq_getElem_cons hi, hget, referenceAt, reference, List.cons_append, nameAt,
    List.takeWhile_append_dropWhile]

theorem slice_codeMask_of_refers (h : refers (codeMask t) i = true) :
    slice (codeMask t) i (endAt t i) = referenceAt t i := by
  rw [slice, endAt, Nat.add_sub_cancel_left, drop_of_refers h, List.take_left]

theorem slice_of_refers (h : refers (codeMask t) i = true) : slice t i (endAt t i) = referenceAt t i := by
  apply slice_of_codeMask (slice_codeMask_of_refers h)
  intro hspace
  rcases List.mem_cons.1 hspace with hspace | hspace
  · cases hspace
  · cases (isName_of_refers h).2 ' ' hspace

theorem endAt_le (h : refers (codeMask t) i = true) : endAt t i ≤ t.length := by
  have hi : i < (codeMask t).length := lt_length_of_refers h
  have hlength := congrArg List.length (drop_of_refers h)
  rw [List.length_append, List.length_drop] at hlength
  rw [← length_codeMask, endAt]
  omega

/-- Behind the dollar sign are the bytes of the name. -/
theorem ident_of_behind {k : Nat} {x : Char} (hk : i < k) (hk' : k < endAt t i) (hx : (codeMask t)[k]? = some x) :
    isIdent x = true := by
  apply ident_of_nameAt hk _ hx
  rw [endAt, referenceAt, reference, List.length_cons] at hk'
  omega

/-- The name is not empty, and its last byte is in code. -/
theorem last_of_refers (h : refers (codeMask t) i = true) : i + 1 < endAt t i ∧
    ∃ x, (codeMask t)[endAt t i - 1]? = some x ∧ isIdent x = true := by
  have hname : nameAt (codeMask t) i ≠ [] := by
    intro hnone
    have hstart := (isName_of_refers h).1
    rw [hnone] at hstart
    cases hstart
  have hlong : i + 1 < endAt t i := by
    have hpos := List.length_pos_iff.2 hname
    rw [endAt, referenceAt, reference, List.length_cons]
    omega
  have hin : endAt t i - 1 < (codeMask t).length := by
    have hle := endAt_le h
    rw [length_codeMask]
    omega
  have hi : i < endAt t i - 1 := by omega
  have hend : endAt t i - 1 < endAt t i := by omega
  have hlast := List.getElem?_eq_getElem hin
  exact ⟨hlong, _, hlast, ident_of_behind hi hend hlast⟩

/-- The byte before the end of the reference is not blank. -/
theorem solid_of_refers (h : refers (codeMask t) i = true) :
    ∃ x, byteBefore t (endAt t i) = some x ∧ isBlank x = false := by
  obtain ⟨hlong, x, hx, hident⟩ := last_of_refers h
  have hspace : x ≠ ' ' := by
    rintro rfl
    cases hident
  have hraw : t[endAt t i - 1]? = some x := getElem?_of_run hx hspace
  refine ⟨x, ?_, not_isBlank_of_isIdent hident⟩
  obtain ⟨k, hk⟩ : ∃ k, endAt t i = k + 1 := ⟨endAt t i - 1, by omega⟩
  rw [hk] at hraw ⊢
  exact hraw

/-- A byte of a name differs from one that belongs to no name. -/
theorem ne_of_isIdent {x y : Char} (hx : isIdent x = true) (hy : isIdent y = false) : x ≠ y := by
  rintro rfl
  rw [hx] at hy
  cases hy

/-- **The text comes to rest behind a reference.** -/
theorem rests_of_refers (h : refers (codeMask t) i = true) : Rests (t.take (endAt t i)) := by
  obtain ⟨hlong, x, hx, hident⟩ := last_of_refers h
  have hplace : endAt t i - 1 + 1 = endAt t i := by omega
  have hrests := rests_through hx (not_isBlank_of_isIdent hident) ⟨ne_of_isIdent hident rfl, ne_of_isIdent hident rfl⟩
    ⟨ne_of_isIdent hident rfl, ne_of_isIdent hident rfl, ne_of_isIdent hident rfl⟩
  rwa [hplace] at hrests

/-- The byte behind the reference belongs to no name, in the text as in the mask. -/
theorem stops_of_refers (h : refers (codeMask t) i = true) {x : Char} (hx : t[endAt t i]? = some x) :
    isIdent x = false := by
  rw [Bool.eq_false_iff]
  intro hident
  -- it is read in code, so the mask shows it
  have hmask := getElem?_mask .commentsAndStrings hx
  rw [((rests_of_refers h).joins (some x)).code, next_of_plain
    ⟨ne_of_isIdent hident rfl, ne_of_isIdent hident rfl, ne_of_isIdent hident rfl⟩] at hmask
  have hshown : (codeMask t)[endAt t i]? = some x := hmask
  rw [endAt, ← List.getElem?_drop, drop_of_refers h, List.getElem?_append_right (Nat.le_refl _), Nat.sub_self,
    ← List.head?_eq_getElem?] at hshown
  have hhead := List.head?_dropWhile_not isIdent ((codeMask t).drop (i + 1))
  rw [hshown] at hhead
  have hstop : isIdent x = false := hhead
  rw [hident] at hstop
  cases hstop

/-! ## Where conversion begins -/

/-- The place on the line of an offset from which on references are converted. -/
def conversionStart? (t : Text) (i : Nat) : Option Nat :=
  ((trackerAt (codeMask t) i).convertFrom? (lineAt (codeMask t) i)).map (i - columnAt t i + ·)

/-- The part of a line before an offset. -/
theorem slice_line (hi : i ≤ t.length) : ∃ front, i = front + columnAt t i ∧
    ∀ k, slice t (front + k) i = (lastLine (t.take i)).drop k := by
  obtain ⟨front, hcut, -, -, -⟩ := lastLine_spec (t.take i)
  refine ⟨front.length, ?_, ?_⟩
  · rw [columnAt, ← List.length_append, ← hcut, List.length_take_of_le hi]
  · intro k
    rw [slice, ← List.drop_take]
    conv =>
      lhs
      rw [hcut]
    exact List.drop_length_add_append k

/-- **A reference is converted** exactly if conversion begins before it on its line, and from there on no brace of an
interpolation is open. -/
theorem converts_iff (h : t[i]? = some '$') : converts t i = true ↔
    ∃ j, conversionStart? t i = some j ∧ j ≤ i ∧ openAfter none 0 (slice t j i) = 0 := by
  have hi : i < t.length := (List.getElem?_eq_some_iff.1 h).1
  obtain ⟨front, hplace, hslice⟩ := slice_line (Nat.le_of_lt hi)
  have hfront : i - columnAt t i = front := by omega
  rw [converts, Tracker.converts, conversionStart?, hfront]
  generalize (trackerAt (codeMask t) i).convertFrom? (lineAt (codeMask t) i) = start
  cases start with
  | none => simp
  | some k =>
    have hle : front + k ≤ i ↔ k ≤ columnAt t i := by omega
    simp only [Option.map_some, Option.some.injEq, exists_eq_left', Bool.and_eq_true, decide_eq_true_eq,
      Bool.not_eq_true', hle]
    refine and_congr_right fun hk => ?_
    -- what the line shows behind the place where conversion begins
    have hrest : (lineAt t i).drop k = (lastLine (t.take i)).drop k ++ Text.firstLine (t.drop i) :=
      List.drop_append_of_le_length hk
    have hcount : ((lastLine (t.take i)).drop k).length = columnAt t i - k := List.length_drop
    have hdollar : ((lineAt t i).drop k)[columnAt t i - k]? = some '$' := by
      have hhead : (Text.firstLine (t.drop i)).head? = some '$' := by
        obtain ⟨hi, hget⟩ := List.getElem?_eq_some_iff.1 h
        rw [List.drop_eq_getElem_cons hi, hget]
        rfl
      rw [hrest, ← hcount, List.getElem?_append_right (Nat.le_refl _), Nat.sub_self, ← List.head?_eq_getElem?, hhead]
    have hbefore : ((lineAt t i).drop k).take (columnAt t i - k) = (lastLine (t.take i)).drop k := by
      rw [hrest, ← hcount, List.take_left]
    rw [← Bool.not_eq_true, covers_iff hdollar, hbefore, hslice, Nat.pos_iff_ne_zero, not_not]
/-- What the conversion makes of a reference. -/
def convertedAt (t : Text) (i : Nat) : Text :=
  if converts t i then expression (nameAt (codeMask t) i) else referenceAt t i

/-- The edits around a reference. -/
theorem usages_around (h : refers (codeMask t) i = true) :
    ∀ e ∈ usages t, e.1.start = i ∨ e.1.stop ≤ i ∨ endAt t i ≤ e.1.start := by
  intro e he
  rcases Nat.lt_trichotomy e.1.start i with hlt | heq | hgt
  · exact .inr (.inl (stop_le_of_usage he hlt ⟨'$', dollar_of_refers h, rfl⟩))
  · exact .inl heq
  · right
    right
    -- the bytes of the name are no dollar signs
    apply Classical.byContradiction
    intro hshort
    have hdollar := dollar_of_refers (mem_usages_iff.1 he).1
    cases ident_of_behind hgt (Nat.lt_of_not_le hshort) hdollar

/-- **A reference is converted or left as it is** when the references of a text are converted. -/
theorem convertUsages_at (h : refers (codeMask t) i = true) : ∃ back,
    (convertUsages t).1 = editedBefore t (usages t) i ++ convertedAt t i ++ back := by
  obtain ⟨hedits, hconvert⟩ := convertUsages_eq t
  have haround := usages_around h
  rw [hconvert, convertedAt]
  split
  · next hconverts =>
    have hstop : endAt t i = i + 1 + (nameAt (codeMask t) i).length := by
      rw [endAt, referenceAt, reference, List.length_cons]
      omega
    have hmem : ((⟨i, endAt t i⟩ : Span), Reference.replacement (nameAt (codeMask t) i)) ∈ usages t :=
      mem_usages_iff.2 ⟨h, hstop, rfl, hconverts⟩
    obtain ⟨back, hput⟩ := replaceSpans_puts hedits.apart hmem ⟨Nat.le_refl _, endAt_le h⟩ (by
      rintro ⟨⟨start, stop⟩, q⟩ hf
      refine (haround _ hf).imp_left ?_
      rintro rfl
      obtain ⟨-, hstop', hq, -⟩ := mem_usages_iff.1 hf
      dsimp only at hstop' hq
      rw [hstop', hq, hstop])
    refine ⟨back, ?_⟩
    rw [slice_self, List.append_nil, replacement_of_ident (isName_of_refers h).2] at hput
    exact hput
  · next hconverts =>
    -- a usage that is made touches the reference only if it is the reference
    have hkept : ∀ e ∈ usages t, e.1.stop ≤ i ∨ endAt t i ≤ e.1.start := by
      intro e he
      refine (haround e he).resolve_left ?_
      rintro rfl
      exact hconverts (mem_usages_iff.1 he).2.2.2
    obtain ⟨back, hkeeps⟩ := replaceSpans_keeps hedits.apart (Nat.le_add_right _ _) (endAt_le h) hkept
    rw [← endAt, slice_of_refers h] at hkeeps
    exact ⟨back, hkeeps⟩

/-- It does not begin with a blank. -/
theorem convertedAt_eq_cons (t : Text) (i : Nat) : ∃ c q, convertedAt t i = c :: q ∧ isBlank c = false := by
  rw [convertedAt]
  split
  · exact ⟨'v', _, rfl, rfl⟩
  · exact ⟨'$', _, rfl, rfl⟩

/-! ## References outside all declarations -/

/-- **A reference of the code stands at an offset**, outside all declarations. -/
structure Stands (t : Text) (i : Nat) : Prop where
  refers : refers (codeMask t) i = true
  outside : ∀ d ∈ Declaration.find t, i < d.span.start ∨ d.span.stop ≤ i

instance (t : Text) (i : Nat) : Decidable (Stands t i) :=
  decidable_of_iff
    (Style.refers (codeMask t) i = true ∧ ∀ d ∈ Declaration.find t, i < d.span.start ∨ d.span.stop ≤ i)
    ⟨fun ⟨h₁, h₂⟩ => ⟨h₁, h₂⟩, fun ⟨h₁, h₂⟩ => ⟨h₁, h₂⟩⟩

namespace Stands

/-- A declaration behind the reference begins behind the byte that ends its name. -/
theorem endAt_lt (h : Stands t i) (hd : d ∈ Declaration.find t) (hlt : i < d.span.start) :
    endAt t i < d.span.start := by
  obtain ⟨hdollar, hfresh⟩ := begins_of_mem_find hd
  obtain ⟨hlong, x, hx, hident⟩ := last_of_refers h.refers
  apply Classical.byContradiction
  intro hshort
  rcases Nat.lt_or_eq_of_le (Nat.le_of_not_lt hshort) with hinside | hend
  · cases ident_of_behind hlt hinside hdollar
  · -- no statement begins behind a byte of a name
    obtain ⟨k, hk⟩ : ∃ k, d.span.start = k + 1 := ⟨d.span.start - 1, by omega⟩
    have hbefore : byteBefore (codeMask t) d.span.start = some x := by
      have hplace : endAt t i - 1 = k := by omega
      rw [hk]
      rwa [hplace] at hx
    rcases hfresh x hbefore with hblank | rfl | rfl | rfl
    · rw [not_isBlank_of_isIdent hident] at hblank
      cases hblank
    · cases hident
    · cases hident
    · cases hident

/-- The declarations are before the reference or behind it. -/
theorem exists_split (h : Stands t i) : ∃ ds es, Declaration.find t = ds ++ es ∧ (∀ d ∈ ds, d.span.stop ≤ i) ∧
    ∀ d ∈ es, endAt t i < d.span.start := by
  obtain ⟨es, hfind, hes⟩ := filter_append_of_apart (·.span) (apart_find t) (Nat.le_succ i) fun d hd =>
    (h.outside d hd).symm
  refine ⟨_, es, hfind, ?_, ?_⟩
  · intro d hd
    exact of_decide_eq_true (List.mem_filter.1 hd).2
  · intro d hd
    apply h.endAt_lt _ (hes d hd)
    rw [hfind]
    exact List.mem_append_right _ hd

/-- Behind the last of the declarations before a place the text has come to rest. -/
theorem exists_rest {ds es : List Declaration} (hfind : Declaration.find t = ds ++ es)
    (hds : ∀ d ∈ ds, d.span.stop ≤ i) : ∃ b, b ≤ i ∧ Rests (t.take b) ∧ ∀ d ∈ ds, d.span.stop ≤ b := by
  rcases List.eq_nil_or_concat ds with rfl | ⟨before, last, rfl⟩
  · exact ⟨0, Nat.zero_le i, rests_nil, nofun⟩
  · rw [List.concat_eq_append] at hfind hds ⊢
    have hmem : last ∈ Declaration.find t := by
      rw [hfind]
      simp
    obtain ⟨hordered, hinside⟩ := apart_find t
    have hlt := (hinside last.span (List.mem_map_of_mem hmem)).1
    rw [hfind, List.append_assoc, List.map_append, List.pairwise_append] at hordered
    refine ⟨last.span.stop, hds last (by simp), (rests_of_mem_find hmem).2, ?_⟩
    intro d hd
    rcases List.mem_append.1 hd with hd | hd
    · have hbefore := hordered.2.2 d.span (List.mem_map_of_mem hd) last.span (by simp)
      omega
    · obtain rfl := List.mem_singleton.1 hd
      exact Nat.le_refl _

/-- From each place on the text is blank up to a byte that is not. -/
theorem exists_solid {b : Nat} (hb : b ≤ i) (hi : ∃ c, t[i]? = some c ∧ isBlank c = false) :
    ∃ j, b ≤ j ∧ j ≤ i ∧ (∀ x, t[j]? = some x → isBlank x = false) ∧ ∀ x ∈ slice t b j, isBlank x = true := by
  obtain ⟨c, hc, hsolid⟩ := hi
  induction hn : i - b generalizing b with
  | zero =>
    obtain rfl : b = i := by omega
    refine ⟨b, Nat.le_refl b, Nat.le_refl b, ?_, ?_⟩
    · intro x hx
      obtain rfl := Option.some.inj (hc.symm.trans hx)
      exact hsolid
    · rw [slice_self]
      nofun
  | succ n ih =>
    have hlt : b < i := by omega
    have hlength : b < t.length := Nat.lt_trans hlt (List.getElem?_eq_some_iff.1 hc).1
    by_cases hblank : isBlank t[b] = true
    · obtain ⟨j, hbj, hji, hbegins, hall⟩ := ih hlt (by omega)
      refine ⟨j, Nat.le_of_lt hbj, hji, hbegins, ?_⟩
      rw [slice_cons hbj hlength]
      exact List.forall_mem_cons.2 ⟨hblank, hall⟩
    · refine ⟨b, Nat.le_refl b, hb, ?_, ?_⟩
      · intro x hx
        obtain rfl := Option.some.inj ((List.getElem?_eq_getElem hlength).symm.trans hx)
        exact Bool.eq_false_iff.2 hblank
      · rw [slice_self]
        nofun

/-- **The reference is in a stretch that no declaration touches**: from the first byte that is not blank behind the
declarations before it. -/
theorem exists_clear (h : Stands t i) : ∃ j ds es, j ≤ i ∧ Clear t j (endAt t i) ∧ Declaration.find t = ds ++ es ∧
    (∀ d ∈ ds, d.span.stop ≤ j) ∧ ∀ d ∈ es, endAt t i < d.span.start := by
  obtain ⟨ds, es, hfind, hds, hes⟩ := h.exists_split
  obtain ⟨b, hb, hrests, hbefore⟩ := exists_rest hfind hds
  have hdollar : t[i]? = some '$' := getElem?_of_run (dollar_of_refers h.refers) (by decide)
  obtain ⟨j, hbj, hji, hbegins, hblank⟩ := exists_solid hb ⟨'$', hdollar, rfl⟩
  have hlong := (last_of_refers h.refers).1
  have hds' : ∀ d ∈ ds, d.span.stop ≤ j := fun d hd => Nat.le_trans (hbefore d hd) hbj
  have hclear : Clear t j (endAt t i) := by
    constructor
    · exact ⟨by omega, endAt_le h.refers⟩
    · rw [← take_append_slice hbj]
      exact hrests.append (rests_of_blank hblank)
    · exact hbegins
    · intro x hx
      obtain ⟨y, hy, hsolid⟩ := solid_of_refers h.refers
      obtain rfl := Option.some.inj (hy.symm.trans hx)
      exact hsolid
    · exact ⟨ds, es, hfind, hds', fun d hd => Nat.le_of_lt (hes d hd)⟩
  exact ⟨j, ds, es, hji, hclear, hfind, hds', hes⟩

/-! ## The reference in what is left -/

/-- The text without the declarations behind the reference, up to the byte behind its name. -/
theorem behind_kept (h : Stands t i) {es : List Declaration} (hes : ∀ d ∈ es, endAt t i < d.span.start)
    (hmem : ∀ d ∈ es, d ∈ Declaration.find t) :
    (eraseStatements t (es.map (·.span))).take (endAt t i) = t.take (endAt t i) ∧
      (eraseStatements t (es.map (·.span)))[endAt t i]? = t[endAt t i]? := by
  by_cases hin : endAt t i < t.length
  · have hlater : ∀ s ∈ es.map (·.span), endAt t i < s.start := by
      intro s hs
      obtain ⟨d, hd, rfl⟩ := List.mem_map.1 hs
      exact hes d hd
    obtain ⟨hsame, -⟩ := take_eraseStatements_next hin hlater (solid_of_refers h.refers)
    constructor
    · rw [← Nat.min_eq_left (Nat.le_succ (endAt t i)), ← List.take_take, hsame, List.take_take]
    · rw [← List.getElem?_take_of_lt (Nat.lt_succ_self _), hsame, List.getElem?_take_of_lt (Nat.lt_succ_self _)]
  · -- the text ends with the reference
    have hnone : es = [] := by
      rw [List.eq_nil_iff_forall_not_mem]
      intro d hd
      have hstart := hes d hd
      have hinside := (apart_find t).2 d.span (List.mem_map_of_mem (hmem d hd))
      omega
    rw [hnone]
    exact ⟨rfl, rfl⟩

/-- **The mask of what is left shows the reference**, and behind it the mask of a text that begins with the byte that
was behind it. -/
theorem codeMask_remainder_eq (h : Stands t i) : ∃ front c, front.length = (leftBefore t i).length ∧
    codeMask (remainder t) = front ++ (referenceAt t i ++ codeMask c) ∧ c.head? = t[endAt t i]? := by
  obtain ⟨j, ds, es, hle, hclear, hfind, hds, hes⟩ := h.exists_clear
  obtain ⟨hfront, hleft, hrem⟩ := hclear.remainder_cut hfind hds fun d hd => Nat.le_of_lt (hes d hd)
  have hi : i < endAt t i := Nat.lt_trans (Nat.lt_succ_self i) (last_of_refers h.refers).1
  have hjend : j ≤ endAt t i := Nat.le_of_lt hclear.inside.1
  have hmem : ∀ d ∈ es, d ∈ Declaration.find t := by
    intro d hd
    rw [hfind]
    exact List.mem_append_right _ hd
  obtain ⟨hsame, hbyte⟩ := h.behind_kept hes hmem
  obtain ⟨-, hslice⟩ := take_slice_congr hsame hjend
  have hbefore : leftBefore t i = leftBefore t j ++ slice t j i := hleft i hle hi
  generalize eraseStatements t (es.map (·.span)) = kept at *
  have hdrop : kept.drop j = slice t j (endAt t i) ++ kept.drop (endAt t i) := by
    rw [← hslice]
    exact drop_eq_slice_append hjend kept
  -- the stretch comes to rest at both ends, so its mask is a stretch of the mask
  have hrests : Rests (slice t j (endAt t i)) := rests_slice hclear.rests (rests_of_refers h.refers) hjend
  have hmask : codeMask (slice t j (endAt t i)) = slice (codeMask t) j i ++ referenceAt t i := by
    rw [codeMask_slice hclear.rests (rests_of_refers h.refers) hjend hclear.inside.2,
      slice_append hle (Nat.le_of_lt hi), slice_codeMask_of_refers h.refers]
  refine ⟨codeMask (leftBefore t j) ++ slice (codeMask t) j i, kept.drop (endAt t i), ?_, ?_, ?_⟩
  · have hlt := lt_length_of_refers h.refers
    have hlt' : i < t.length := by rwa [length_codeMask] at hlt
    rw [hbefore, List.length_append, List.length_append, length_codeMask, length_slice (Nat.le_of_lt hlt),
      length_slice (Nat.le_of_lt hlt')]
  · rw [hrem, hdrop, codeMask_append (hfront.joins _), codeMask_append (hrests.joins _), hmask]
    simp only [List.append_assoc]
  · rw [List.head?_drop, hbyte]

/-- **The reference is still there** when the declarations have been cut out, with the same name. -/
theorem codeMask_remainder (h : Stands t i) : Style.refers (codeMask (remainder t)) (leftBefore t i).length = true ∧
    nameAt (codeMask (remainder t)) (leftBefore t i).length = nameAt (codeMask t) i := by
  obtain ⟨front, c, hlength, hmask, hhead⟩ := h.codeMask_remainder_eq
  have hnamed : IsName (nameAt (codeMask t) i) := isName_of_refers h.refers
  have hdrop : (codeMask (remainder t)).drop (leftBefore t i).length = referenceAt t i ++ codeMask c := by
    rw [hmask, ← hlength, List.drop_left]
  have hrefers := refers_drop (codeMask (remainder t)) (leftBefore t i).length 0
  have hname := nameAt_drop (codeMask (remainder t)) (leftBefore t i).length 0
  rw [Nat.add_zero, hdrop] at hrefers hname
  -- no byte has come to stand behind the name that would go on with it
  have hends : ∀ x, (codeMask c).head? = some x → isIdent x = false := by
    intro x hx
    by_cases hspace : x = ' '
    · rw [hspace]
      rfl
    · exact stops_of_refers h.refers (hhead ▸ head?_of_codeMask hx hspace)
  exact ⟨hrefers ▸ refers_reference hnamed _, hname ▸ nameAt_reference hnamed hends⟩

end Stands

/-! ## The reference in the result -/

/-- **What becomes of a reference** outside all declarations, and of one in an interpolation. It is converted exactly if
conversion begins before it on its line in what is left without the declarations, and from there on no brace of an
interpolation is open. So it is left as it is in an interpolation that begins where conversion begins or behind, if no
brace from there on is in a comment or a string. -/
theorem hoist_keeps_interpolated (h : Stands t i) :
    (∃ back, (hoist t).content =
      hoistedBefore t i ++ convertedAt (remainder t) (leftBefore t i).length ++ back) ∧
    (convertedAt (remainder t) (leftBefore t i).length = expression (nameAt (codeMask t) i) ↔
      ∃ j, conversionStart? (remainder t) (leftBefore t i).length = some j ∧ j ≤ (leftBefore t i).length ∧
        openAfter none 0 (slice (remainder t) j (leftBefore t i).length) = 0) ∧
    ∀ s ∈ interpolations (codeMask (remainder t)), s.covers (leftBefore t i).length = true →
      (∀ j, conversionStart? (remainder t) (leftBefore t i).length = some j → j ≤ (leftBefore t i).length →
        j ≤ s.start ∧ BracesInCode (remainder t) j (leftBefore t i).length) →
      convertedAt (remainder t) (leftBefore t i).length = referenceAt t i := by
  obtain ⟨hrefers, hname⟩ := h.codeMask_remainder
  unfold hoistedBefore
  generalize (leftBefore t i).length = p at *
  have hdollar := dollar_of_refers hrefers
  have hconverts := converts_iff (getElem?_of_run hdollar (by decide))
  have hsame : referenceAt (remainder t) p = referenceAt t i := congrArg reference hname
  refine ⟨?_, ?_, ?_⟩
  · obtain ⟨back, hback⟩ := convertUsages_at hrefers
    obtain ⟨c, q, hq, hc⟩ := convertedAt_eq_cons (remainder t) p
    rw [hq, List.append_assoc, List.cons_append] at hback
    refine ⟨back, ?_⟩
    rw [hoist_shows hc hback, hq, List.append_assoc, List.cons_append]
  · rw [← hconverts, convertedAt, hname, hsame]
    split
    · next hyes => simp [hyes]
    · next hno =>
      have hother : referenceAt t i ≠ expression (nameAt (codeMask t) i) := nofun
      simp [hno, hother]
  · intro s hs hcovers hbegins
    -- conversion begins before the interpolation, whose brace is still open at the reference
    have hnone : ¬ converts (remainder t) p = true := by
      rw [hconverts]
      rintro ⟨j, hj, hle, hclosed⟩
      obtain ⟨hstart, hbraces⟩ := hbegins j hj hle
      have hopen := covers_of_span hs hcovers hdollar hstart hbraces
      omega
    rw [convertedAt, if_neg hnone, hsame]

/-- A sheet with an interpolation in a selector. -/
def namedRule : Text := "$x: 1px;\n.m-#\x7b$x\x7d \x7b top: $x; \x7d\n".toList

theorem namedRule_kept :
    Stands namedRule 14 ∧ (⟨3, 8⟩ : Span) ∈ interpolations (codeMask (remainder namedRule)) ∧
    ∃ back, (hoist namedRule).content = ":root \x7b\n  --x: 1px;\n\x7d\n\n.m-#\x7b".toList ++ "$x".toList ++ back := by
  have hstands : Stands namedRule 14 := by decide +kernel
  have hspan : (⟨3, 8⟩ : Span) ∈ interpolations (codeMask (remainder namedRule)) := by decide +kernel
  have hplace : (leftBefore namedRule 14).length = 5 := by decide +kernel
  have hfront : hoistedBefore namedRule 14 = ":root \x7b\n  --x: 1px;\n\x7d\n\n.m-#\x7b".toList := by decide +kernel
  have hshown : referenceAt namedRule 14 = "$x".toList := by decide +kernel
  obtain ⟨⟨back, hback⟩, -, hkept⟩ := hoist_keeps_interpolated hstands
  rw [hplace] at hback hkept
  have hbegins : ∀ j, conversionStart? (remainder namedRule) 5 = some j → j ≤ 5 →
      j ≤ 3 ∧ BracesInCode (remainder namedRule) j 5 := by
    have hstart : conversionStart? (remainder namedRule) 5 = some 0 := by decide +kernel
    rw [hstart]
    rintro j ⟨⟩ -
    decide +kernel
  rw [hkept _ hspan (by decide) hbegins, hfront, hshown] at hback
  exact ⟨hstands, hspan, back, hback⟩

/-- A rule with an interpolation that is written on three lines. -/
def brokenInterpolation : Text := ".a \x7b width: #\x7b\n  $x\n\x7d; \x7d\n".toList

/-- **A line break hides an interpolation**: the reference is in one, and converted. -/
theorem crossing_interpolation_converted :
    Stands brokenInterpolation 17 ∧
    (interpolations (codeMask brokenInterpolation)).any (·.covers 17) = true ∧
    (hoist brokenInterpolation).content = ".a \x7b width: #\x7b\n  var(--x)\n\x7d; \x7d\n".toList := by
  refine ⟨?_, ?_, ?_⟩ <;> decide +kernel

end Flatsheet.Style
