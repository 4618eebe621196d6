import Flatsheet.Proofs.Check.Interpolation
import Flatsheet.Proofs.Style.Tracking

/-!
# `Proofs.Style.References` — converting references is exact and can be undone

A text is woven of pieces, each of which is followed by a name (`weave`). Converting the references of a text writes
the names in another way and leaves the pieces as they are: `var(--name)` in place of `$name`. The names are those
of the references that the code mask shows and that are in no interpolation (`convertReferences_exact`).

What is written for the names can be found again in the result, so the text can be restored (`restored`). For that
no piece may be taken for the beginning of an expression, not even together with what follows it: a text without
`var(--` has no such piece, as the first byte of the mark occurs in it only once.

The interpolations are those of the text as it stands, and a brace in a comment or a string counts in them.
Without such a brace before it, a reference is in one exactly if it is in one of the code; with one it is converted
in an interpolation (`brace_in_string_ends_interpolation`).
-/

namespace Flatsheet.Style

open Text Check Mask

variable {a r t u name front tail : Text} {i pos : Nat} {found : List (Span × Text)}
  {pieces : List (Text × Text)} {write : Text → Text}

/-! ## Woven texts -/

/-- The text of pieces, behind each of which a name is written in the given way. -/
def weave (write : Text → Text) : List (Text × Text) → Text → Text
  | [], tail => tail
  | (front, name) :: rest, tail => front ++ write name ++ weave write rest tail

/-- A name written as a reference. -/
def reference (name : Text) : Text := '$' :: name

/-- The mark with which an expression for a custom property begins. -/
def mark : Text := "var(--".toList

/-- A name written as the expression for a custom property. -/
def expression (name : Text) : Text := mark ++ name ++ [')']

theorem expression_eq (name : Text) : expression name = 'v' :: ("ar(--".toList ++ name ++ [')']) := rfl

theorem weave_expression_cons (front name : Text) (pieces : List (Text × Text)) (tail : Text) :
    weave expression ((front, name) :: pieces) tail =
      front ++ 'v' :: ("ar(--".toList ++ name ++ [')'] ++ weave expression pieces tail) :=
  List.append_assoc front _ _

/-- The offsets of the references in a text woven of them, which begins at offset `pos`. -/
def places (pos : Nat) : List (Text × Text) → List (Nat × Text)
  | [] => []
  | (front, name) :: rest =>
    (pos + front.length, name) :: places (pos + front.length + (reference name).length) rest

/-- The stretch of a reference. -/
def stretch (place : Nat × Text) : Span × Text :=
  (⟨place.1, place.1 + (reference place.2).length⟩, place.2)

/-- **A text is woven of the references that are found in it and what is between them**, and putting something else in
the place of each weaves a text of the same pieces. -/
theorem weave_of_found (write : Text → Text) (apart : Apart (a ++ u) (found.map (·.1)))
    (hshown : ∀ f ∈ found, slice (a ++ u) f.1.start f.1.stop = reference f.2)
    (hbegin : ∀ f ∈ found, a.length ≤ f.1.start) : ∃ pieces tail,
      u = weave reference pieces tail ∧
      replaceSpans (a ++ u) (found.map fun f => (f.1, write f.2)) = a ++ weave write pieces tail ∧
      found = (places a.length pieces).map stretch := by
  induction found generalizing a u with
  | nil => exact ⟨[], u, rfl, rfl, rfl⟩
  | cons f found ih =>
    obtain ⟨⟨start, stop⟩, name⟩ := f
    obtain ⟨hordered, hinside⟩ := apart
    rw [List.map_cons, List.pairwise_cons] at hordered
    obtain ⟨hlt, hstop⟩ := hinside _ List.mem_cons_self
    have hle : a.length ≤ start := hbegin _ List.mem_cons_self
    have hname : slice (a ++ u) start stop = reference name := hshown _ List.mem_cons_self
    dsimp only at hlt hstop
    have hlength : stop = start + (reference name).length := by
      have hcount := congrArg List.length hname
      rw [length_slice hstop] at hcount
      omega
    -- up to the end of the reference the text goes to the part before
    have hcut : (a ++ u).take stop ++ (a ++ u).drop stop = a ++ u := List.take_append_drop _ _
    have hfront : (a ++ u).take stop = a ++ slice (a ++ u) a.length start ++ reference name := by
      rw [← take_append_slice (Nat.le_of_lt hlt), hname, ← take_append_slice hle, List.take_left]
    have hstopped : ((a ++ u).take stop).length = stop := List.length_take_of_le hstop
    obtain ⟨pieces, tail, hrest, hput, hfound⟩ := ih (a := (a ++ u).take stop) (u := (a ++ u).drop stop)
      (by
        rw [hcut]
        exact ⟨hordered.2, fun s hs => hinside s (List.mem_cons_of_mem _ hs)⟩)
      (by
        rw [hcut]
        exact fun f hf => hshown f (List.mem_cons_of_mem _ hf))
      (by
        rw [hstopped]
        exact fun f hf => hordered.1 _ (List.mem_map_of_mem hf))
    rw [hcut] at hput
    rw [hstopped] at hfound
    have hbetween : a.length + (slice (a ++ u) a.length start).length = start := by
      rw [length_slice (by omega)]
      omega
    refine ⟨(slice (a ++ u) a.length start, name) :: pieces, tail, ?_, ?_, ?_⟩
    · have hwhole : a ++ u = a ++ (slice (a ++ u) a.length start ++ reference name ++ weave reference pieces tail) := by
        rw [← hrest, ← List.append_assoc, ← List.append_assoc, ← hfront, hcut]
      exact List.append_cancel_left hwhole
    · show replaceSpan (replaceSpans (a ++ u) (found.map fun f => (f.1, write f.2))) ⟨start, stop⟩ (write name) = _
      have hbefore : (a ++ slice (a ++ u) a.length start).length = start := by
        rw [List.length_append, hbetween]
      have htake : ((a ++ u).take stop ++ weave write pieces tail).take start = a ++ slice (a ++ u) a.length start := by
        rw [hfront, List.append_assoc]
        exact List.take_left' hbefore
      rw [hput, replaceSpan, htake, List.drop_left' hstopped, weave]
      simp only [List.append_assoc]
    · rw [places, List.map_cons, hbetween, ← hlength, ← hfound]
      show _ = (⟨start, start + (reference name).length⟩, name) :: found
      rw [← hlength]

theorem length_places (pos : Nat) (pieces : List (Text × Text)) : (places pos pieces).length = pieces.length := by
  induction pieces generalizing pos with
  | nil => rfl
  | cons p pieces ih => rw [places, List.length_cons, List.length_cons, ih]

/-! ## The references of a text -/

/-- The references of a text that are in code and in no interpolation. -/
def exposed (t : Text) : List (Span × Text) :=
  (Reference.find (codeMask t)).filter fun (s, _) => !(interpolations t).any (·.covers s.start)

theorem mem_exposed {s : Span} : (s, name) ∈ exposed t ↔
    (refers (codeMask t) s.start = true ∧ name = nameAt (codeMask t) s.start ∧ s.stop = s.start + 1 + name.length) ∧
      (interpolations t).any (·.covers s.start) = false := by
  rw [exposed, List.mem_filter, mem_references_iff, Bool.not_eq_true']

/-- A name is an identifier. -/
def IsName (name : Text) : Prop := name.head?.any isIdentStart = true ∧ ∀ x ∈ name, isIdent x = true

theorem isIdent_of_start {x : Char} (h : isIdentStart x = true) : isIdent x = true := by
  simp only [isIdentStart, isIdent, Bool.or_eq_true] at h ⊢
  refine h.imp_left (Or.imp_left fun halpha => ?_)
  rw [Char.isAlphanum, halpha, Bool.true_or]

theorem isName_of_refers (h : refers t i = true) : IsName (nameAt t i) := by
  refine ⟨?_, List.all_eq_true.1 List.all_takeWhile⟩
  rw [refers, Bool.and_eq_true, ← Nat.add_zero (i + 1), ← List.getElem?_drop, ← List.head?_eq_getElem?] at h
  rw [nameAt]
  cases hrest : t.drop (i + 1) with
  | nil =>
    rw [hrest] at h
    cases h.2
  | cons x r =>
    rw [hrest] at h
    have hstart : isIdentStart x = true := h.2
    rw [List.takeWhile_cons_of_pos (isIdent_of_start hstart)]
    exact hstart

/-- **Converting the references of a text** puts an expression in the place of each that is exposed. -/
theorem convertReferences_eq (t : Text) : (convertReferences t).1 =
    replaceSpans t ((exposed t).map fun f => (f.1, expression f.2)) ∧
      (convertReferences t).2 = (exposed t).length := by
  have hedits : Reference.edits t (codeMask t) = (exposed t).map fun f => (f.1, expression f.2) := by
    show (exposed t).map (fun f => (f.1, Reference.replacement f.2)) = _
    apply List.map_congr_left
    rintro ⟨s, name⟩ hf
    obtain ⟨⟨hrefers, rfl, -⟩, -⟩ := mem_exposed.1 hf
    rw [replacement_of_ident (isName_of_refers hrefers).2]
    rfl
  refine ⟨congrArg (replaceSpans t) hedits, ?_⟩
  show (Reference.edits t (codeMask t)).length = _
  rw [hedits, List.length_map]

/-- **A text is woven of its exposed references**, and the result of the conversion of the expressions for them. -/
theorem weave_of_exposed (t : Text) : ∃ pieces tail,
    t = weave reference pieces tail ∧ (convertReferences t).1 = weave expression pieces tail ∧
      exposed t = (places 0 pieces).map stretch := by
  have hspans : Spans Reference.look (codeMask t) (·.1) := fun c b n hc hlook => (Reference.look_found hc hlook).1
  have happart : Apart ([] ++ t) ((exposed t).map (·.1)) := by
    have hfound : Apart t ((Reference.find (codeMask t)).map (·.1)) := apart_of_codeMask (sweep_apart hspans)
    exact apart_sublist hfound (List.filter_sublist.map _)
  have hshown : ∀ f ∈ exposed t, slice ([] ++ t) f.1.start f.1.stop = reference f.2 := by
    intro f hf
    obtain ⟨c, n, hc, hlook⟩ := mem_sweep (List.mem_filter.1 hf).1
    obtain ⟨-, hslice, hname⟩ := Reference.look_found hc hlook
    apply slice_of_codeMask hslice
    intro hspace
    rcases List.mem_cons.1 hspace with hspace | hspace
    · cases hspace
    · cases hname ' ' hspace
  obtain ⟨pieces, tail, htext, hresult, hplaces⟩ :=
    weave_of_found expression happart hshown fun _ _ => Nat.zero_le _
  refine ⟨pieces, tail, htext, ?_, hplaces⟩
  rw [(convertReferences_eq t).1]
  exact hresult

theorem mem_places_iff (h : exposed t = (places 0 pieces).map stretch) : (i, name) ∈ places 0 pieces ↔
    refers (codeMask t) i = true ∧ name = nameAt (codeMask t) i ∧ (interpolations t).any (·.covers i) = false := by
  have hmem : (i, name) ∈ places 0 pieces ↔ stretch (i, name) ∈ exposed t := by
    rw [h]
    constructor
    · exact List.mem_map_of_mem
    · intro hstretch
      obtain ⟨⟨j, name'⟩, hmem, heq⟩ := List.mem_map.1 hstretch
      simp only [stretch, Prod.mk.injEq, Span.mk.injEq] at heq
      obtain ⟨⟨rfl, -⟩, rfl⟩ := heq
      exact hmem
  have hstop : i + (reference name).length = i + 1 + name.length := by
    rw [reference, List.length_cons]
    omega
  rw [hmem, stretch, mem_exposed]
  constructor
  · rintro ⟨⟨hrefers, hname, -⟩, houtside⟩
    exact ⟨hrefers, hname, houtside⟩
  · rintro ⟨hrefers, hname, houtside⟩
    exact ⟨⟨hrefers, hname, hstop⟩, houtside⟩

/-! ## Restoring the references -/

/-- The name in the expression with which a text begins. -/
def expression? (t : Text) : Option Text :=
  let name := (t.drop mark.length).takeWhile isIdent
  if startsWith t mark && name.head?.any isIdentStart && (t.drop (mark.length + name.length)).head? = some ')' then
    some name
  else none

/-- The text with each `var(--name)` replaced by `$name`. The next `wait` bytes belong to the last expression. -/
def restoreFrom (wait : Nat) : Text → Text
  | [] => []
  | c :: r =>
    if 0 < wait then restoreFrom (wait - 1) r
    else match expression? (c :: r) with
      | some name => reference name ++ restoreFrom (mark.length + name.length) r
      | none => c :: restoreFrom 0 r

/-- **The text with each expression `var(--name)` replaced by the reference `$name`.** -/
def restored (t : Text) : Text := restoreFrom 0 t

theorem restoreFrom_wait (a r : Text) : restoreFrom a.length (a ++ r) = restored r := by
  induction a with
  | nil => rfl
  | cons c a ih =>
    rw [List.cons_append, restoreFrom, List.length_cons, if_pos (Nat.succ_pos _), Nat.add_sub_cancel, ih]

theorem expression?_expression (h : IsName name) (r : Text) : expression? (expression name ++ r) = some name := by
  have hcut : expression name ++ r = mark ++ (name ++ ')' :: r) := by
    rw [expression, List.append_assoc, List.append_assoc]
    rfl
  have hname : (name ++ ')' :: r).takeWhile isIdent = name := by
    apply takeWhile_stretch h.2
    rintro x ⟨⟩
    rfl
  have hbegins : startsWith (mark ++ (name ++ ')' :: r)) mark = true := by
    rw [startsWith, List.isPrefixOf_iff_prefix]
    exact List.prefix_append _ _
  have hbehind : ((mark ++ (name ++ ')' :: r)).drop (mark.length + name.length)).head? = some ')' := by
    rw [List.drop_length_add_append, List.drop_left]
    rfl
  rw [hcut]
  simp only [expression?, List.drop_left, hname, hbegins, h.1, hbehind]
  rfl

/-- An expression is replaced by its reference. -/
theorem restored_expression (h : IsName name) (r : Text) :
    restored (expression name ++ r) = reference name ++ restored r := by
  obtain ⟨rest, hrest⟩ : ∃ rest, expression name = 'v' :: rest := ⟨_, rfl⟩
  have hlength : rest.length = mark.length + name.length := by
    have hcount := congrArg List.length hrest
    rw [expression, List.length_append, List.length_append, List.length_singleton, List.length_cons] at hcount
    exact (Nat.succ.inj hcount).symm
  have hfound := expression?_expression h r
  rw [hrest, List.cons_append] at hfound ⊢
  rw [restored, restoreFrom, if_neg (Nat.lt_irrefl 0), hfound]
  show reference name ++ restoreFrom (mark.length + name.length) (rest ++ r) = _
  rw [← hlength, restoreFrom_wait]

/-- **A piece without the mark stays**, if an expression or nothing stands behind it. -/
theorem restored_piece (hmark : ¬ mark <:+: front) (hr : ∀ x, r.head? = some x → x = 'v') :
    restored (front ++ r) = front ++ restored r := by
  induction front with
  | nil => rfl
  | cons c p ih =>
    have hrest : ¬ mark <:+: p := fun h => hmark (h.trans (List.suffix_cons c p).isInfix)
    have hbegins : startsWith (c :: p ++ r) mark = false := by
      rw [startsWith, Bool.eq_false_iff]
      intro hprefix
      obtain ⟨q, hq⟩ := List.isPrefixOf_iff_prefix.1 hprefix
      rcases List.append_eq_append_iff.1 hq with ⟨w, hw, -⟩ | ⟨w, hw, hbehind⟩
      · exact hmark ⟨[], w, hw.symm⟩
      · -- the mark would go on in what stands behind, and its first byte occurs in it only once
        cases w with
        | nil => exact hmark ⟨[], [], by rw [hw]; simp⟩
        | cons x w =>
          have hx : x = 'v' := hr x (by rw [hbehind]; rfl)
          have hlater : 'v' ∈ mark.tail := by
            rw [hw, hx]
            simp
          revert hlater
          decide
    have hnone : expression? (c :: p ++ r) = none := by
      rw [expression?, hbegins]
      rfl
    rw [List.cons_append] at hnone ⊢
    rw [restored, restoreFrom, if_neg (Nat.lt_irrefl 0), hnone]
    exact congrArg (c :: ·) (ih hrest)

/-- What a woven text begins with behind a piece. -/
theorem head?_expressions {rest : Text} : ∀ x, (expression name ++ rest).head? = some x → x = 'v' := by
  rintro x ⟨⟩
  rfl

/-- **A text that is woven without the mark is restored.** -/
theorem restored_weave (hmark : ¬ mark <:+: weave reference pieces tail) (hnames : ∀ p ∈ pieces, IsName p.2) :
    restored (weave expression pieces tail) = weave reference pieces tail := by
  induction pieces with
  | nil =>
    have htail : ¬ mark <:+: tail := hmark
    have hpiece := restored_piece (r := []) htail nofun
    show restored tail = tail
    rw [List.append_nil] at hpiece
    rw [hpiece, restored, restoreFrom, List.append_nil]
  | cons p pieces ih =>
    obtain ⟨front, name⟩ := p
    rw [weave] at hmark
    have hfront : ¬ mark <:+: front := by
      intro h
      rw [List.append_assoc] at hmark
      exact hmark (h.trans (List.prefix_append _ _).isInfix)
    have hrest : ¬ mark <:+: weave reference pieces tail := fun h =>
      hmark (h.trans (List.suffix_append _ _).isInfix)
    rw [weave, weave, List.append_assoc, restored_piece hfront head?_expressions,
      restored_expression (hnames _ List.mem_cons_self), ih hrest fun p hp => hnames p (List.mem_cons_of_mem _ hp),
      List.append_assoc]

theorem mem_places_of_mem (pos : Nat) {p : Text × Text} (h : p ∈ pieces) : ∃ i, (i, p.2) ∈ places pos pieces := by
  induction pieces generalizing pos with
  | nil => cases h
  | cons q pieces ih =>
    rcases List.mem_cons.1 h with rfl | h
    · exact ⟨_, List.mem_cons_self⟩
    · obtain ⟨i, hi⟩ := ih (pos + q.1.length + (reference q.2).length) h
      exact ⟨i, List.mem_cons_of_mem _ hi⟩

/-- **Converting references is exact, and can be undone.** The result is woven of the same pieces as the text, with
`var(--name)` for each `$name`, and their number is reported. The references are those that the code mask shows, with
the longest name, outside the interpolations of the text; these are the interpolations of the code where no brace
before the reference is in a comment or a string. A text without `var(--` can be restored. -/
theorem convertReferences_exact (t : Text) :
    (∃ pieces tail,
      t = weave reference pieces tail ∧
      (convertReferences t).1 = weave expression pieces tail ∧
      (convertReferences t).2 = pieces.length ∧
      ∀ i name, (i, name) ∈ places 0 pieces ↔
        refers (codeMask t) i = true ∧ name = nameAt (codeMask t) i ∧ (interpolations t).any (·.covers i) = false) ∧
    (∀ i, refers (codeMask t) i = true → BracesInCode t 0 i →
      (interpolations t).any (·.covers i) = (interpolations (codeMask t)).any (·.covers i)) ∧
    (¬ mark <:+: t → restored (convertReferences t).1 = t) := by
  obtain ⟨pieces, tail, htext, hresult, hplaces⟩ := weave_of_exposed t
  refine ⟨⟨pieces, tail, htext, hresult, ?_, fun i name => mem_places_iff hplaces⟩, ?_, ?_⟩
  · rw [(convertReferences_eq t).2, hplaces, List.length_map, length_places]
  · intro i hrefers hbraces
    exact covers_codeMask hbraces (dollar_of_refers hrefers)
  · intro hmark
    have hnames : ∀ p ∈ pieces, IsName p.2 := by
      intro p hp
      obtain ⟨i, hi⟩ := mem_places_of_mem 0 hp
      obtain ⟨hrefers, hname, -⟩ := (mem_places_iff hplaces).1 hi
      rw [hname]
      exact isName_of_refers hrefers
    rw [hresult, restored_weave (htext ▸ hmark) hnames, ← htext]

/-- A line with references in code, in an interpolation, in a string and in a comment. -/
def mixedLine : Text := "a: $x #\x7b$y\x7d \"$z\" $b-c; // $d".toList

theorem mixedLine_restored :
    (convertReferences mixedLine).1 = "a: var(--x) #\x7b$y\x7d \"$z\" var(--b-c); // $d".toList ∧
    (refers (codeMask mixedLine) 8 = true ∧ BracesInCode mixedLine 0 8 ∧
      (interpolations mixedLine).any (·.covers 8) = (interpolations (codeMask mixedLine)).any (·.covers 8)) ∧
    ¬ mark <:+: mixedLine ∧ restored (convertReferences mixedLine).1 = mixedLine := by
  have hrefers : refers (codeMask mixedLine) 8 = true := by decide +kernel
  have hbraces : BracesInCode mixedLine 0 8 := by decide +kernel
  have hmark : ¬ mark <:+: mixedLine := by decide +kernel
  obtain ⟨-, hcovers, hrestored⟩ := convertReferences_exact mixedLine
  exact ⟨by decide +kernel, ⟨hrefers, hbraces, hcovers 8 hrefers hbraces⟩, hmark, hrestored hmark⟩

/-- An interpolation with a brace in a string. -/
def quotedBrace : Text := "#\x7b\"\x7d\" + $x\x7d".toList

/-- **A brace in a string ends an interpolation**: the reference behind it is in an interpolation of the code, and
converted. -/
theorem brace_in_string_ends_interpolation :
    refers (codeMask quotedBrace) 8 = true ∧
    (interpolations (codeMask quotedBrace)).any (·.covers 8) = true ∧
    convertReferences quotedBrace = ("#\x7b\"\x7d\" + var(--x)\x7d".toList, 1) := by
  refine ⟨?_, ?_, ?_⟩ <;> decide +kernel

end Flatsheet.Style
