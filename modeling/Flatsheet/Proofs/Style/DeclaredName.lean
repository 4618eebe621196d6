import Flatsheet.Proofs.Style.Remainder

/-!
# `Proofs.Style.DeclaredName` — what becomes of the name of a declaration

A declaration that ends in a semicolon is hoisted, and nothing of it is left. One that the end of its block or of the
text cuts short is no declaration to the scanner. It is left where it stands, and its name is treated as any other
reference: it is converted wherever references are (`hoist_declared_name`).

* `Heads`: a declaration is written at a place
* `Heads.at?_eq`: it is found exactly if its value ends
* `Heads.clear`: otherwise no declaration touches it
-/

namespace Flatsheet.Style

open Text Check Mask

variable {t content name blanks value : Text} {p : Place} {n i : Nat}

/-- **A declaration is written at a place**: outside of definitions a statement begins there, in the code mask, with
`$name` and, behind blanks, a colon. -/
structure Heads (p : Place) (name blanks value : Text) : Prop where
  admits : p.scan.admits = true
  written : p.cursor.rest = '$' :: (name ++ (blanks ++ ':' :: value))
  named : name ≠ [] ∧ ∀ x ∈ name, isIdent x = true
  blank : ∀ x ∈ blanks, isBlank x = true

instance (p : Place) (name blanks value : Text) : Decidable (Heads p name blanks value) :=
  decidable_of_iff
    (p.scan.admits = true ∧ p.cursor.rest = '$' :: (name ++ (blanks ++ ':' :: value)) ∧
      (name ≠ [] ∧ name.all isIdent = true) ∧ blanks.all isBlank = true)
    (by
      simp only [List.all_eq_true]
      exact ⟨fun ⟨h₁, h₂, h₃, h₄⟩ => ⟨h₁, h₂, h₃, h₄⟩, fun ⟨h₁, h₂, h₃, h₄⟩ => ⟨h₁, h₂, h₃, h₄⟩⟩)

namespace Heads

theorem dollar (h : Heads p name blanks value) : p.cursor.byte? = some '$' := by
  rw [Cursor.byte?, h.written]
  rfl

theorem statement_eq_none (h : Heads p name blanks value) : p.scan.statement = none := by
  have hadmits := h.admits
  rw [Declaration.Scan.admits, Bool.and_eq_true] at hadmits
  simpa using hadmits.1

/-! ## The scanner -/

/-- The cursor goes over the bytes of a class. -/
theorem rest_skip {c : Cursor} {q : Char → Bool} {v r : Text} (h : c.rest = v ++ r) (hv : ∀ x ∈ v, q x = true)
    (hr : ∀ x, r.head? = some x → q x = false) : (c.skip q).rest = r := by
  show c.rest.drop (c.rest.takeWhile q).length = r
  rw [h, takeWhile_stretch hv hr, List.drop_left]

/-- Behind the name stands a byte that belongs to no name. -/
theorem head?_behind (h : Heads p name blanks value) (r : Text) :
    ∀ x, (blanks ++ ':' :: r).head? = some x → isIdent x = false := by
  intro x hx
  cases hblanks : blanks with
  | nil =>
    rw [hblanks] at hx
    cases hx
    rfl
  | cons b bs =>
    rw [hblanks] at hx
    cases hx
    exact not_isIdent_of_blank (h.blank _ (by rw [hblanks]; exact List.mem_cons_self))

theorem takeWhile_name (h : Heads p name blanks value) (r : Text) :
    (name ++ (blanks ++ ':' :: r)).takeWhile isIdent = name :=
  takeWhile_stretch h.named.2 (h.head?_behind r)

/-- **The declaration is found exactly if its value ends**, and then with its name. -/
theorem at?_eq (h : Heads p name blanks value) (hp : p.Sound t) :
    (Declaration.at? t p.cursor = none ↔ valueLength? 0 0 false value = none) ∧
      ∀ d, Declaration.at? t p.cursor = some d → d.name = name := by
  have hname : (p.cursor.advance 1).rest = name ++ (blanks ++ ':' :: value) := by
    show p.cursor.rest.drop 1 = _
    rw [h.written]
    rfl
  have hblanks : ((p.cursor.advance 1).skip isIdent).rest = blanks ++ ':' :: value :=
    rest_skip hname h.named.2 (h.head?_behind value)
  have hcolon : (((p.cursor.advance 1).skip isIdent).skip isBlank).rest = ':' :: value := by
    apply rest_skip hblanks h.blank
    rintro x ⟨⟩
    rfl
  have hvalue : ((((p.cursor.advance 1).skip isIdent).skip isBlank).advance 1).rest = value := by
    show (((p.cursor.advance 1).skip isIdent).skip isBlank).rest.drop 1 = _
    rw [hcolon]
    rfl
  have hshown : ¬ (name.isEmpty || decide ((((p.cursor.advance 1).skip isIdent).skip isBlank).byte? ≠ some ':')) = true := by
    rw [Cursor.byte?, hcolon]
    simpa using h.named.1
  rw [Style.at?_eq hp.reads h.dollar]
  dsimp only
  rw [hname, h.takeWhile_name, if_neg hshown, hvalue, Option.map_eq_none_iff]
  refine ⟨Iff.rfl, ?_⟩
  intro d hd
  obtain ⟨m, -, rfl⟩ := Option.map_eq_some_iff.1 hd
  rfl

/-- **A declaration whose value ends is hoisted**: it is found with its name, and nothing of it is left. -/
theorem hoisted (h : Heads (place t n) name blanks value) (hends : valueLength? 0 0 false value ≠ none) :
    ∃ d ∈ Declaration.find t, d.span.start = (place t n).cursor.pos ∧ d.name = name ∧
      (remainder t).Sublist (t.take d.span.start ++ t.drop d.span.stop) := by
  have hsound := sound_place t n
  obtain ⟨hnone, hnamed⟩ := h.at?_eq hsound
  obtain ⟨d, hd⟩ := Option.ne_none_iff_exists'.1 fun hmissing => hends (hnone.1 hmissing)
  obtain ⟨hstart, hlt, -, -⟩ := hsound.over hd
  obtain ⟨before, hfind, -⟩ := find_place t n
  have hseen : seen? t (place t n).scan (place t n).cursor '$' = some d := seen?_eq_some.2 ⟨⟨h.admits, rfl⟩, hd⟩
  rw [findOn_some h.dollar hseen hlt] at hfind
  have hmem : d ∈ Declaration.find t := by
    rw [hfind]
    exact List.mem_append_right _ List.mem_cons_self
  exact ⟨d, hmem, hstart, hnamed d hd, remainder_sublist hmem⟩

/-! ## The text around it -/

/-- What the code mask shows. -/
theorem codeMask_eq (h : Heads (place t n) name blanks value) :
    (codeMask t).drop (place t n).cursor.pos = '$' :: (name ++ (blanks ++ ':' :: value)) := by
  rw [← (sound_place t n).reads.at.rest]
  exact h.written

/-- The offset of the colon. -/
def colonAt (p : Place) (name blanks : Text) : Nat := p.cursor.pos + 1 + name.length + blanks.length

/-- A byte behind the dollar sign. -/
theorem getElem?_behind (h : Heads (place t n) name blanks value) (m : Nat) :
    (codeMask t)[(place t n).cursor.pos + (m + 1)]? = (name ++ blanks ++ ':' :: value)[m]? := by
  rw [← List.getElem?_drop, h.codeMask_eq, List.getElem?_cons_succ, List.append_assoc]

theorem getElem?_colon (h : Heads (place t n) name blanks value) :
    (codeMask t)[colonAt (place t n) name blanks]? = some ':' := by
  have hplace : colonAt (place t n) name blanks = (place t n).cursor.pos + ((name ++ blanks).length + 1) := by
    rw [colonAt, List.length_append]
    omega
  rw [hplace, h.getElem?_behind, List.getElem?_append_right (Nat.le_refl _), Nat.sub_self]
  rfl

/-- Between the dollar sign and the colon there are the bytes of the name, and blanks. -/
theorem between (h : Heads (place t n) name blanks value) {k : Nat} {x : Char} (hk : (place t n).cursor.pos < k)
    (hk' : k < colonAt (place t n) name blanks) (hx : (codeMask t)[k]? = some x) :
    isIdent x = true ∨ isBlank x = true := by
  obtain ⟨m, rfl⟩ : ∃ m, k = (place t n).cursor.pos + (m + 1) := ⟨k - (place t n).cursor.pos - 1, by omega⟩
  have hin : m < (name ++ blanks).length := by
    rw [colonAt] at hk'
    rw [List.length_append]
    omega
  rw [h.getElem?_behind, List.getElem?_append_left hin] at hx
  rcases List.mem_append.1 (List.mem_of_getElem? hx) with hmem | hmem
  · exact .inl (h.named.2 x hmem)
  · exact .inr (h.blank x hmem)

theorem rests_before (h : Heads (place t n) name blanks value) : Rests (t.take (place t n).cursor.pos) :=
  rests_of_fresh (sound_place t n) h.statement_eq_none h.dollar rfl (by decide)

theorem rests_colon (h : Heads (place t n) name blanks value) :
    Rests (t.take (colonAt (place t n) name blanks)) := by
  apply rests_of_masked h.getElem?_colon rfl (by decide)
  intro x hx
  have hname : 0 < name.length := List.length_pos_iff.2 h.named.1
  obtain ⟨k, hk⟩ : ∃ k, colonAt (place t n) name blanks = k + 1 := ⟨colonAt (place t n) name blanks - 1, by
    unfold colonAt
    omega⟩
  rw [hk] at hx
  have hclass : isIdent x = true ∨ isBlank x = true := by
    apply h.between _ _ hx <;> (unfold colonAt at *; omega)
  refine ⟨?_, ?_, ?_⟩ <;> (rintro rfl; rcases hclass with hclass | hclass <;> cases hclass)

/-- **A declaration that is not found is touched by no other.** -/
theorem clear (h : Heads (place t n) name blanks value) (hends : valueLength? 0 0 false value = none) :
    Clear t (place t n).cursor.pos (colonAt (place t n) name blanks + 1) := by
  have hsound := sound_place t n
  have hdollar : (codeMask t)[(place t n).cursor.pos]? = some '$' := by
    rw [← hsound.reads.at.byte?]
    exact h.dollar
  have hcolon := h.getElem?_colon
  obtain ⟨before, hfind, hbefore⟩ := find_place t n
  refine ⟨⟨?_, ?_⟩, h.rests_before, ?_, ?_, before, _, hfind, hbefore, ?_⟩
  · unfold colonAt
    omega
  · rw [← length_codeMask]
    exact (List.getElem?_eq_some_iff.1 hcolon).1
  · intro x hx
    rw [getElem?_of_run hdollar (by decide)] at hx
    cases hx
    rfl
  · intro x hx
    have hbyte : byteBefore t (colonAt (place t n) name blanks + 1) = some ':' := getElem?_of_run hcolon (by decide)
    rw [hbyte] at hx
    cases hx
    rfl
  · intro d hd
    have hunseen : seen? t (place t n).scan (place t n).cursor '$' = none := by
      rw [seen?, if_pos (by simp [h.admits])]
      exact (h.at?_eq hsound).1.2 hends
    rw [findOn_none h.dollar hunseen] at hd
    have hnext := hsound.next
    rw [next_of_unseen h.dollar hunseen] at hnext
    obtain ⟨q, hq, hqdollar, -, hfound, hle⟩ := mem_findOn hnext hd
    obtain ⟨hstart, -⟩ := hq.over hfound
    have hpos : (place t n).cursor.pos < q.cursor.pos := by
      have hmove := pos_advance_byte h.dollar
      have hle' : ((place t n).cursor.advance 1).pos ≤ q.cursor.pos := hle
      omega
    rw [hq.reads.at.byte?] at hqdollar
    rw [hstart]
    apply Classical.byContradiction
    intro hshort
    -- up to the colon there is no other dollar sign
    rcases Nat.lt_or_eq_of_le (Nat.le_of_lt_succ (Nat.lt_of_not_le hshort)) with hbetween | hend
    · rcases h.between hpos hbetween hqdollar with hclass | hclass <;> cases hclass
    · rw [hend, hcolon] at hqdollar
      cases hqdollar

end Heads

/-! ## The name -/

/-- The bytes between the name and the colon. -/
def gap (t : Text) (p : Place) (name blanks : Text) : Text :=
  slice t (p.cursor.pos + 1 + name.length) (Heads.colonAt p name blanks)

/-- **What stands where the name of a declaration stood** that is not hoisted: what a reference becomes there. -/
def shownName (t : Text) (p : Place) (name : Text) : Text :=
  if name.head?.any isIdentStart && converts (remainder t) (leftBefore t p.cursor.pos).length then
    Reference.replacement name
  else '$' :: name

namespace Heads

theorem le_colonAt : (place t n).cursor.pos + 1 + name.length ≤ colonAt (place t n) name blanks := Nat.le_add_right _ _

theorem pos_le_colonAt : (place t n).cursor.pos ≤ colonAt (place t n) name blanks := by
  unfold colonAt
  omega

theorem slice_colon (h : Heads (place t n) name blanks value) {i : Nat} (hi : i ≤ colonAt (place t n) name blanks) :
    slice t i (colonAt (place t n) name blanks + 1) = slice t i (colonAt (place t n) name blanks) ++ [':'] :=
  slice_succ hi (getElem?_of_run h.getElem?_colon (by decide))

/-- The declaration as it is written, up to the colon. -/
theorem slice_eq (h : Heads (place t n) name blanks value) :
    slice t (place t n).cursor.pos (colonAt (place t n) name blanks + 1) =
      '$' :: name ++ gap t (place t n) name blanks ++ [':'] := by
  have hshown : slice (codeMask t) (place t n).cursor.pos ((place t n).cursor.pos + 1 + name.length) = '$' :: name := by
    have hcount : (place t n).cursor.pos + 1 + name.length - (place t n).cursor.pos = name.length + 1 := by omega
    rw [slice, h.codeMask_eq, hcount, List.take_succ_cons, List.take_left]
  have hname : slice t (place t n).cursor.pos ((place t n).cursor.pos + 1 + name.length) = '$' :: name := by
    apply slice_of_codeMask hshown
    intro hspace
    rcases List.mem_cons.1 hspace with hspace | hspace
    · cases hspace
    · cases h.named.2 ' ' hspace
  have hle : (place t n).cursor.pos ≤ (place t n).cursor.pos + 1 + name.length := by omega
  rw [h.slice_colon pos_le_colonAt, slice_append hle le_colonAt, hname]
  rfl

/-- The code mask of what is left shows the same. -/
theorem codeMask_remainder (h : Heads (place t n) name blanks value) (hends : valueLength? 0 0 false value = none) :
    ∃ r, codeMask (remainder t) = codeMask (leftBefore t (place t n).cursor.pos) ++
      '$' :: (name ++ (blanks ++ ':' :: r)) := by
  have hclear := h.clear hends
  have hle : (place t n).cursor.pos ≤ colonAt (place t n) name blanks := pos_le_colonAt
  have hlength : colonAt (place t n) name blanks < t.length := hclear.inside.2
  obtain ⟨hfront, c, hrem⟩ := hclear.remainder_eq
  -- the stretch without the colon comes to rest
  have hrests := rests_slice h.rests_before h.rests_colon hle
  have hmask : codeMask (slice t (place t n).cursor.pos (colonAt (place t n) name blanks)) = '$' :: (name ++ blanks) := by
    have hcount : colonAt (place t n) name blanks - (place t n).cursor.pos = (name ++ blanks).length + 1 := by
      rw [colonAt, List.length_append]
      omega
    rw [codeMask_slice h.rests_before h.rests_colon hle (Nat.le_of_lt hlength), slice, h.codeMask_eq, hcount,
      List.take_succ_cons, ← List.append_assoc, List.take_left]
  refine ⟨run .commentsAndStrings (some ':') .code c, ?_⟩
  rw [hrem, h.slice_colon hle, List.append_assoc, List.append_assoc, codeMask_append (hfront.joins _),
    codeMask_append (hrests.joins _), hmask]
  simp only [List.cons_append, List.append_assoc]
  rfl

/-- In such a mask a reference begins at the dollar sign if the name is one, and none begins up to the colon. -/
theorem refers_of_mask (h : Heads (place t n) name blanks value) {u r code : Text}
    (hcode : code = u ++ '$' :: (name ++ (blanks ++ ':' :: r))) :
    refers code u.length = name.head?.any isIdentStart ∧ nameAt code u.length = name ∧
      ∀ k, u.length < k → k ≤ u.length + (1 + name.length + blanks.length) → refers code k = false := by
  have hdrop : ∀ k, refers code (u.length + k) = refers ('$' :: (name ++ (blanks ++ ':' :: r))) k := by
    intro k
    rw [hcode, ← refers_drop, List.drop_left]
  refine ⟨?_, ?_, ?_⟩
  · obtain ⟨x, xs, hx⟩ := List.exists_cons_of_ne_nil h.named.1
    have hhere := hdrop 0
    rw [Nat.add_zero] at hhere
    rw [hhere, hx]
    rfl
  · have hhere := nameAt_drop code u.length 0
    rw [Nat.add_zero] at hhere
    rw [← hhere, hcode, List.drop_left]
    exact h.takeWhile_name r
  · intro k hk hk'
    obtain ⟨m, rfl⟩ : ∃ m, k = u.length + (m + 1) := ⟨k - u.length - 1, by omega⟩
    rw [hdrop, refers, List.getElem?_cons_succ, ← List.append_assoc]
    -- neither the name nor the blanks have a dollar sign
    have hother : (name ++ blanks ++ ':' :: r)[m]? ≠ some '$' := by
      intro hdollar
      have hle : m ≤ (name ++ blanks).length := by
        rw [List.length_append]
        omega
      rcases Nat.lt_or_eq_of_le hle with hlt | rfl
      · rw [List.getElem?_append_left hlt] at hdollar
        rcases List.mem_append.1 (List.mem_of_getElem? hdollar) with hmem | hmem
        · cases h.named.2 '$' hmem
        · cases h.blank '$' hmem
      · rw [List.getElem?_append_right (Nat.le_refl _), Nat.sub_self] at hdollar
        cases hdollar
    rw [decide_eq_false hother, Bool.false_and]

/-- The conversions of what is left: the name, or none of the declaration. -/
theorem usages_remainder (h : Heads (place t n) name blanks value) (hends : valueLength? 0 0 false value = none) :
    ∀ e ∈ usages (remainder t),
      (e.1.start = (leftBefore t (place t n).cursor.pos).length ∧
        (name.head?.any isIdentStart && converts (remainder t) (leftBefore t (place t n).cursor.pos).length) = true) ∨
      e.1.stop ≤ (leftBefore t (place t n).cursor.pos).length ∨
      (leftBefore t (place t n).cursor.pos).length + (colonAt (place t n) name blanks + 1 - (place t n).cursor.pos) ≤
        e.1.start := by
  intro e he
  obtain ⟨r, hmask⟩ := h.codeMask_remainder hends
  obtain ⟨hhere, -, hbehind⟩ := h.refers_of_mask hmask
  rw [length_codeMask] at hhere hbehind
  obtain ⟨hrefers, -, -, hconverts⟩ := mem_usages_iff.1 he
  rcases Nat.lt_trichotomy e.1.start (leftBefore t (place t n).cursor.pos).length with hlt | heq | hgt
  · refine .inr (.inl (stop_le_of_usage he hlt ⟨'$', ?_, rfl⟩))
    rw [hmask, List.getElem?_append_right (Nat.le_of_eq (length_codeMask _)), length_codeMask, Nat.sub_self]
    rfl
  · rw [heq, hhere] at hrefers
    rw [heq] at hconverts
    exact .inl ⟨heq, by rw [hrefers, hconverts]; rfl⟩
  · right
    right
    apply Classical.byContradiction
    intro hshort
    rw [hbehind e.1.start hgt (by unfold colonAt at hshort; omega)] at hrefers
    cases hrefers

/-- Where references are converted, the conversion of the name is the only one that touches the declaration. -/
theorem usages_of_converts (h : Heads (place t n) name blanks value) (hends : valueLength? 0 0 false value = none)
    (hstart : name.head?.any isIdentStart = true)
    (hconverts : converts (remainder t) (leftBefore t (place t n).cursor.pos).length = true) :
    ∃ e ∈ usages (remainder t), e.1.start = (leftBefore t (place t n).cursor.pos).length ∧
      e.1.stop = (leftBefore t (place t n).cursor.pos).length + 1 + name.length ∧ e.2 = Reference.replacement name ∧
      ∀ f ∈ usages (remainder t), f = e ∨ f.1.stop ≤ e.1.start ∨
        e.1.start + (colonAt (place t n) name blanks + 1 - (place t n).cursor.pos) ≤ f.1.start := by
  have htouch := h.usages_remainder hends
  obtain ⟨r, hmask⟩ := h.codeMask_remainder hends
  obtain ⟨hhere, hname, -⟩ := h.refers_of_mask hmask
  rw [length_codeMask] at hhere hname
  generalize leftBefore t (place t n).cursor.pos = u at *
  refine ⟨(⟨u.length, u.length + 1 + name.length⟩, Reference.replacement name), ?_, rfl, rfl, rfl, ?_⟩
  · rw [mem_usages_iff]
    refine ⟨?_, ?_, ?_, ?_⟩
    · rw [hhere]
      exact hstart
    · rw [hname]
    · rw [hname]
    · exact hconverts
  · -- any other conversion that begins there is the same
    rintro ⟨⟨start, stop⟩, q⟩ hf
    refine (htouch _ hf).imp_left ?_
    rintro ⟨rfl, -⟩
    obtain ⟨-, hstop, hq, -⟩ := mem_usages_iff.1 hf
    dsimp only at hstop hq
    rw [hstop, hq, hname]

/-- The bytes of a declaration up to the colon, counted. -/
theorem count_eq (h : Heads (place t n) name blanks value) (hends : valueLength? 0 0 false value = none) :
    colonAt (place t n) name blanks + 1 - (place t n).cursor.pos =
      1 + name.length + (gap t (place t n) name blanks ++ [':']).length := by
  have hlength := congrArg List.length h.slice_eq
  rw [length_slice (h.clear hends).inside.2] at hlength
  simp only [List.length_append, List.length_cons, List.length_nil] at hlength ⊢
  omega

/-- **The name is converted** where references are. -/
theorem hoist_converts (h : Heads (place t n) name blanks value) (hends : valueLength? 0 0 false value = none)
    (hstart : name.head?.any isIdentStart = true)
    (hconverts : converts (remainder t) (leftBefore t (place t n).cursor.pos).length = true) :
    ∃ back, (hoist t).content = hoistedBefore t (place t n).cursor.pos ++ Reference.replacement name ++
      gap t (place t n) name blanks ++ ':' :: back := by
  obtain ⟨e, hmem, hat, hstop, hpiece, hothers⟩ := h.usages_of_converts hends hstart hconverts
  obtain ⟨-, c, hrem⟩ := (h.clear hends).remainder_eq
  obtain ⟨hedits, hconvert⟩ := convertUsages_eq (remainder t)
  unfold hoistedBefore
  rw [h.slice_eq] at hrem
  rw [h.count_eq hends] at hothers
  generalize leftBefore t (place t n).cursor.pos = u at *
  -- behind the name the remainder goes on with the blanks and the colon
  have hslice : slice (remainder t) e.1.stop
      (e.1.start + (1 + name.length + (gap t (place t n) name blanks ++ [':']).length)) =
        gap t (place t n) name blanks ++ [':'] := by
    have hcut : remainder t = (u ++ '$' :: name) ++ (gap t (place t n) name blanks ++ [':']) ++ c := by
      rw [hrem]
      simp only [List.append_assoc, List.cons_append]
    rw [hcut, hat, hstop]
    apply slice_between
    · rw [List.length_append, List.length_cons]
      omega
    · omega
  have hinside : e.1.start + (1 + name.length + (gap t (place t n) name blanks ++ [':']).length) ≤
      (remainder t).length := by
    have hlength := congrArg List.length hrem
    simp only [List.length_append, List.length_cons, List.length_nil] at hlength ⊢
    omega
  obtain ⟨back, hput⟩ := replaceSpans_puts hedits.apart hmem ⟨by omega, hinside⟩ hothers
  obtain ⟨tail, htail⟩ : ∃ tail, Reference.replacement name = 'v' :: tail := ⟨_, rfl⟩
  rw [hslice, hpiece, htail, hat] at hput
  have hshown : (convertUsages (remainder t)).1 = editedBefore (remainder t) (usages (remainder t)) u.length ++
      'v' :: (tail ++ (gap t (place t n) name blanks ++ ':' :: back)) := by
    rw [hconvert, hput]
    simp only [List.append_assoc, List.cons_append, List.nil_append]
  refine ⟨back, ?_⟩
  rw [hoist_shows rfl hshown, htail]
  simp only [List.append_assoc, List.cons_append]

end Heads

/-- **What becomes of the name of a declaration.** If the value of the declaration ends, nothing of the declaration is
left where it stood, and a custom property of the name is in front. Otherwise the declaration stays, and its name is
converted where references are. -/
theorem hoist_declared_name (h : Heads (place content n) name blanks value) :
    (valueLength? 0 0 false value ≠ none →
      ∃ d ∈ Declaration.find content, d.span.start = (place content n).cursor.pos ∧ d.name = name ∧
        (remainder content).Sublist (content.take d.span.start ++ content.drop d.span.stop) ∧
        (hoist content).content = headed (hoist content).vars (convertUsages (remainder content)).1) ∧
    (valueLength? 0 0 false value = none →
      ∃ back, (hoist content).content = hoistedBefore content (place content n).cursor.pos ++
        shownName content (place content n) name ++ gap content (place content n) name blanks ++ ':' :: back) := by
  refine ⟨?_, ?_⟩
  · intro hends
    obtain ⟨d, hd, hstart, hname, hsub⟩ := h.hoisted hends
    exact ⟨d, hd, hstart, hname, hsub, rfl⟩
  · intro hends
    unfold shownName
    split
    · next hconverts =>
      rw [Bool.and_eq_true] at hconverts
      exact h.hoist_converts hends hconverts.1 hconverts.2
    · next hconverts =>
      obtain ⟨back, hkept⟩ := (h.clear hends).hoist_keeps fun e he =>
        (h.usages_remainder hends e he).resolve_left fun hhere => hconverts hhere.2
      refine ⟨back, ?_⟩
      rw [hkept, h.slice_eq]
      simp only [List.append_assoc, List.cons_append, List.nil_append]

/-- A sheet with a declaration that a semicolon ends, and one that the end of its block cuts short. -/
def twoEnds : Text := "$a: 1px;\n.b \x7b $c: 2px \x7d\n".toList

theorem twoEnds_names :
    (∃ d ∈ Declaration.find twoEnds, d.span = ⟨0, 8⟩ ∧ d.name = "a".toList ∧
      (remainder twoEnds).Sublist (twoEnds.take 0 ++ twoEnds.drop 8)) ∧
    ∃ back, (hoist twoEnds).content =
      ":root \x7b\n  --a: 1px;\n\x7d\n\n.b \x7b ".toList ++ "var(--c)".toList ++ ':' :: back := by
  have hfirst : Heads (place twoEnds 0) "a".toList [] " 1px;\n.b \x7b $c: 2px \x7d\n".toList := by decide +kernel
  have hsecond : Heads (place twoEnds 7) "c".toList [] " 2px \x7d\n".toList := by decide +kernel
  refine ⟨?_, ?_⟩
  · obtain ⟨d, hd, hstart, hname, hsub, -⟩ := (hoist_declared_name hfirst).1 (by decide +kernel)
    have hspan : ∀ d ∈ Declaration.find twoEnds, d.span = ⟨0, 8⟩ := by decide +kernel
    rw [hspan d hd] at hsub
    exact ⟨d, hd, hspan d hd, hname, hsub⟩
  · obtain ⟨back, hback⟩ := (hoist_declared_name hsecond).2 (by decide +kernel)
    have hfront : hoistedBefore twoEnds (place twoEnds 7).cursor.pos =
        ":root \x7b\n  --a: 1px;\n\x7d\n\n.b \x7b ".toList := by decide +kernel
    have hshown : shownName twoEnds (place twoEnds 7) "c".toList = "var(--c)".toList := by decide +kernel
    have hgap : gap twoEnds (place twoEnds 7) "c".toList [] = [] := by decide +kernel
    rw [hfront, hshown, hgap, List.append_nil] at hback
    exact ⟨back, hback⟩

/-- A sheet with a declaration that the end of its block cuts short. -/
def cutShort : Text := ".a \x7b $x: 1px \x7d\n".toList

/-- **The name of a declaration can be converted**: it stands at the beginning of a statement, outside of definitions,
and is taken for a reference. -/
theorem declaration_cut_short_converted :
    Heads (place cutShort 5) "x".toList [] " 1px \x7d\n".toList ∧
      (hoist cutShort).content = ".a \x7b var(--x): 1px \x7d\n".toList := by
  refine ⟨?_, ?_⟩ <;> decide +kernel

end Flatsheet.Style
