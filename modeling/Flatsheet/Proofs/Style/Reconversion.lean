import Flatsheet.Proofs.Style.References

/-!
# `Proofs.Style.Reconversion` — converting references a second time

A reference is exposed exactly if the text before it ends in code and in no interpolation (`Free`,
`exposedAt_iff`). Behind an exposed reference nothing of the text before it matters any more (`Still`), and the same
holds behind the expression that takes its place. So the pieces between the exposed references can be looked at one by
one (`exists_cut`): in the text, and in the text converted, no piece shows a reference by itself.

What the conversion can expose is a dollar sign at the end of a piece, right before the expression
(`shows_converted_iff`): `$$x` becomes `$var(--x)`.
-/

namespace Flatsheet.Style

open Text Check Mask

variable {a t u w r name front tail : Text} {x : Char} {i k : Nat} {before before' : Option Char}
  {pieces : List (Text × Text)}

/-! ## Where a reference is exposed -/

/-- A reference right behind the text is exposed. -/
structure Free (u : Text) : Prop where
  code : State.after none .code (some '$') u = .code
  closed : openAfter none 0 u = 0

/-- **A reference is exposed at the place.** -/
structure ExposedAt (t : Text) (i : Nat) : Prop where
  dollar : t[i]? = some '$'
  name : t[i + 1]?.any isIdentStart = true
  free : Free (t.take i)

/-- A byte of a name opens and closes nothing, and nothing goes on behind it. -/
theorem plain_of_isIdent (h : isIdent x = true) :
    (x ≠ '/' ∧ x ≠ '"' ∧ x ≠ '\'') ∧ (x ≠ '{' ∧ x ≠ '}') ∧ x ≠ ':' ∧ x ≠ '#' := by
  refine ⟨⟨?_, ?_, ?_⟩, ⟨?_, ?_⟩, ?_, ?_⟩ <;> (rintro rfl; cases h)

/-- **The references of the code mask**, read off the text. -/
theorem refers_codeMask_iff : refers (codeMask t) i = true ↔
    t[i]? = some '$' ∧ t[i + 1]?.any isIdentStart = true ∧ State.after none .code (some '$') (t.take i) = .code := by
  constructor
  · intro h
    rw [refers, Bool.and_eq_true, decide_eq_true_eq] at h
    obtain ⟨hdollar, hname⟩ := h
    obtain ⟨x, hx, hstart⟩ := (Option.any_eq_true _ _).1 hname
    refine ⟨getElem?_of_run hdollar (by decide), ?_, after_of_masked hdollar rfl (by decide)⟩
    have hspace : x ≠ ' ' := by
      rintro rfl
      cases hstart
    rw [getElem?_of_run hx hspace]
    exact hstart
  · rintro ⟨hdollar, hname, hcode⟩
    obtain ⟨x, hx, hstart⟩ := (Option.any_eq_true _ _).1 hname
    obtain ⟨hplain, -⟩ := plain_of_isIdent (isIdent_of_start hstart)
    have hi : i < t.length := (List.getElem?_eq_some_iff.1 hdollar).1
    have hcut : t.take (i + 1) = t.take i ++ ['$'] := by
      rw [List.take_succ_eq_append_getElem hi, (List.getElem?_eq_some_iff.1 hdollar).2]
    -- a dollar sign leaves code as it is, so the byte behind it is code too
    have hbehind : State.after none .code (some x) (t.take (i + 1)) = .code := by
      rw [hcut, after_concat, hcode]
      exact next_of_plain (by decide)
    have hmasked := getElem?_mask .commentsAndStrings hdollar
    have hmasked' := getElem?_mask .commentsAndStrings hx
    rw [hcode, next_of_plain (by decide)] at hmasked
    rw [hbehind, next_of_plain hplain] at hmasked'
    have hshown : (codeMask t)[i]? = some '$' := hmasked
    have hshown' : (codeMask t)[i + 1]? = some x := hmasked'
    rw [refers, hshown, hshown']
    simpa using hstart

theorem exposedAt_iff : ExposedAt t i ↔
    refers (codeMask t) i = true ∧ (interpolations t).any (·.covers i) = false := by
  rw [refers_codeMask_iff]
  constructor
  · rintro ⟨hdollar, hname, hcode, hclosed⟩
    refine ⟨⟨hdollar, hname, hcode⟩, ?_⟩
    rw [Bool.eq_false_iff]
    intro hcovers
    have hopen := (covers_iff hdollar).1 hcovers
    omega
  · rintro ⟨⟨hdollar, hname, hcode⟩, houtside⟩
    refine ⟨hdollar, hname, hcode, ?_⟩
    by_contra hopen
    rw [(covers_iff hdollar).2 (Nat.pos_of_ne_zero hopen)] at houtside
    cases houtside

/-- A text that shows a reference. -/
def Shows (t : Text) : Prop := ∃ i, ExposedAt t i

theorem shows_iff : Shows t ↔ exposed t ≠ [] := by
  constructor
  · rintro ⟨i, h⟩ hnone
    obtain ⟨hrefers, houtside⟩ := exposedAt_iff.1 h
    have hmem : (⟨i, i + 1 + (nameAt (codeMask t) i).length⟩, nameAt (codeMask t) i) ∈ exposed t :=
      mem_exposed.2 ⟨⟨hrefers, rfl, rfl⟩, houtside⟩
    rw [hnone] at hmem
    cases hmem
  · intro h
    obtain ⟨⟨s, name⟩, hmem⟩ := List.exists_mem_of_ne_nil _ h
    obtain ⟨⟨hrefers, -⟩, houtside⟩ := mem_exposed.1 hmem
    exact ⟨s.start, exposedAt_iff.2 ⟨hrefers, houtside⟩⟩

/-! ## Texts that make no difference -/

/-- **Nothing of the text matters behind it**: it comes to rest, in no interpolation. -/
structure Still (a : Text) : Prop where
  rests : Rests a
  closed : openAfter none 0 a = 0

theorem still_nil : Still [] := ⟨rests_nil, rfl⟩

theorem openAfter_congr (h : before = some '#' ↔ before' = some '#') (w : Text) :
    openAfter before k w = openAfter before' k w := by
  cases w with
  | nil => rfl
  | cons c r => rw [openAfter, openAfter, openNext_congr h]

theorem openAfter_of_others (h : ∀ c ∈ w, c ≠ '{' ∧ c ≠ '}') : openAfter before k w = k := by
  induction w generalizing before with
  | nil => rfl
  | cons c r ih =>
    rw [openAfter, openNext_of_other (h c List.mem_cons_self), ih fun d hd => h d (List.mem_cons_of_mem c hd)]

theorem Still.free_append (h : Still a) (w : Text) : Free (a ++ w) ↔ Free w := by
  have hclosed : openAfter none 0 (a ++ w) = openAfter none 0 w := by
    rw [openAfter_append, h.closed]
    apply openAfter_congr
    simp [h.rests.hash]
  have hcode : State.after none .code (some '$') (a ++ w) = State.after none .code (some '$') w := by
    by_cases hw : w = []
    · rw [hw, List.append_nil, (h.rests.joins (some '$')).code]
      rfl
    · exact after_of_joins (h.rests.joins w.head?) hw
  constructor
  · rintro ⟨h₁, h₂⟩
    exact ⟨hcode ▸ h₁, hclosed ▸ h₂⟩
  · rintro ⟨h₁, h₂⟩
    exact ⟨hcode.symm ▸ h₁, hclosed.symm ▸ h₂⟩

/-- **A plain word behind a free text** leaves nothing open, and nothing that goes on. -/
theorem Free.still (h : Free front) (hplain : Plain w) (hbraces : ∀ c ∈ w, c ≠ '{' ∧ c ≠ '}')
    (hlast : ∃ x, w.getLast? = some x ∧ x ≠ ':' ∧ x ≠ '#') (hhead : w.head? ≠ some '*') : Still (front ++ w) := by
  obtain ⟨x, hx, hcolon, hhash⟩ := hlast
  have hne : w ≠ [] := by
    rintro rfl
    cases hx
  have hend : (front ++ w).getLast? = some x := by rw [getLast?_append_right front hne, hx]
  have hcode : ∀ y, State.after none .code y (front ++ w) = .code := by
    intro y
    obtain ⟨c, r, rfl⟩ := List.exists_cons_of_ne_nil hne
    have hc := hplain c List.mem_cons_self
    have hinert : Inert (some c) := ⟨hhead, fun hslash => hc.1 (Option.some.inj hslash)⟩
    rw [after_append, List.head?_cons, Option.some_or, after_code_of_inert h.code hinert]
    exact after_of_plain hplain
  refine ⟨⟨hcode _, hcode _, ?_, ?_⟩, ?_⟩
  · rw [hend]
    simpa using hcolon
  · rw [hend]
    simpa using hhash
  · rw [openAfter_append, h.closed, openAfter_of_others hbraces]

/-- So does a reference. -/
theorem Free.still_reference (h : Free front) (hname : IsName name) : Still (front ++ reference name) := by
  have hbytes : ∀ c ∈ reference name, (c ≠ '/' ∧ c ≠ '"' ∧ c ≠ '\'') ∧ (c ≠ '{' ∧ c ≠ '}') ∧ c ≠ ':' ∧ c ≠ '#' := by
    intro c hc
    rcases List.mem_cons.1 hc with rfl | hc
    · decide
    · exact plain_of_isIdent (hname.2 c hc)
  have hlast : ∃ x, (reference name).getLast? = some x ∧ x ≠ ':' ∧ x ≠ '#' := by
    refine ⟨_, List.getLast?_eq_some_getLast (List.cons_ne_nil _ _), ?_⟩
    exact (hbytes _ (List.getLast_mem _)).2.2
  exact h.still (fun c hc => (hbytes c hc).1) (fun c hc => (hbytes c hc).2.1) hlast (by simp [reference])

theorem mem_expression : x ∈ expression name ↔ x ∈ "var(--)".toList ∨ x ∈ name := by
  rw [expression, List.mem_append, List.mem_append, or_right_comm, ← List.mem_append]
  rfl

/-- So does an expression. -/
theorem Free.still_expression (h : Free front) (hname : IsName name) : Still (front ++ expression name) := by
  have hbytes : ∀ c ∈ expression name, (c ≠ '/' ∧ c ≠ '"' ∧ c ≠ '\'') ∧ (c ≠ '{' ∧ c ≠ '}') := by
    have hmark : ∀ c ∈ "var(--)".toList, (c ≠ '/' ∧ c ≠ '"' ∧ c ≠ '\'') ∧ (c ≠ '{' ∧ c ≠ '}') := by simp
    intro c hc
    rcases mem_expression.1 hc with hc | hc
    · exact hmark c hc
    · obtain ⟨hplain, hbraces, -⟩ := plain_of_isIdent (hname.2 c hc)
      exact ⟨hplain, hbraces⟩
  have hlast : (expression name).getLast? = some ')' := List.getLast?_concat
  exact h.still (fun c hc => (hbytes c hc).1) (fun c hc => (hbytes c hc).2) ⟨')', hlast, by decide⟩
    (by simp [expression_eq])

/-- A dollar sign behind a free text is in code, so the text before it is free as well. -/
theorem Free.of_dollar (h : Free (front ++ ['$'])) : Free front := by
  obtain ⟨hcode, hclosed⟩ := h
  rw [openAfter_concat, openNext_of_other (by decide)] at hclosed
  rw [after_concat] at hcode
  refine ⟨?_, hclosed⟩
  have hquoted : (State.after none .code (some '$') front).Quoted := State.Quoted.after quoted_code front
  cases hs : State.after none .code (some '$') front with
  | code => rfl
  | closing => cases after_closing hs
  | string q =>
    rw [hs] at hcode hquoted
    rcases hquoted with rfl | rfl <;> cases hcode
  | opening block =>
    rw [hs] at hcode
    cases block <;> cases hcode
  | lineComment | blockComment | escaped q =>
    rw [hs] at hcode
    cases hcode

/-! ## Pieces -/

theorem Still.exposedAt_append (h : Still a) (w : Text) (i : Nat) :
    ExposedAt (a ++ w) (a.length + i) ↔ ExposedAt w i := by
  have hbyte : ∀ j, (a ++ w)[a.length + j]? = w[j]? := by
    intro j
    rw [List.getElem?_append_right (Nat.le_add_right ..), Nat.add_sub_cancel_left]
  have htake : (a ++ w).take (a.length + i) = a ++ w.take i := List.take_length_add_append ..
  constructor
  · rintro ⟨hdollar, hname, hfree⟩
    rw [hbyte] at hdollar
    rw [Nat.add_assoc, hbyte] at hname
    rw [htake, h.free_append] at hfree
    exact ⟨hdollar, hname, hfree⟩
  · rintro ⟨hdollar, hname, hfree⟩
    refine ⟨?_, ?_, ?_⟩
    · rw [hbyte]
      exact hdollar
    · rw [Nat.add_assoc, hbyte]
      exact hname
    · rw [htake, h.free_append]
      exact hfree

theorem ExposedAt.succ_lt (h : ExposedAt t i) : i + 1 < t.length := by
  obtain ⟨x, hx, -⟩ := (Option.any_eq_true _ _).1 h.name
  exact (List.getElem?_eq_some_iff.1 hx).1

theorem exposedAt_append_left (hi : i + 1 < t.length) (r : Text) : ExposedAt (t ++ r) i ↔ ExposedAt t i := by
  have htake : (t ++ r).take i = t.take i := List.take_append_of_le_length (by omega)
  have hbyte : (t ++ r)[i]? = t[i]? := List.getElem?_append_left (by omega)
  have hbyte' : (t ++ r)[i + 1]? = t[i + 1]? := List.getElem?_append_left hi
  constructor
  · rintro ⟨hdollar, hname, hfree⟩
    exact ⟨hbyte ▸ hdollar, hbyte' ▸ hname, htake ▸ hfree⟩
  · rintro ⟨hdollar, hname, hfree⟩
    exact ⟨hbyte ▸ hdollar, hbyte' ▸ hname, htake ▸ hfree⟩

theorem le_of_mem_places (h : (i, name) ∈ places k pieces) : k ≤ i := by
  induction pieces generalizing k with
  | nil => cases h
  | cons p pieces ih =>
    rcases List.mem_cons.1 h with heq | h
    · cases heq
      exact Nat.le_add_right ..
    · exact Nat.le_trans (Nat.le_add_right_of_le (Nat.le_add_right ..)) (ih h)

/-- **No piece shows a reference by itself**, and behind each a reference is exposed. -/
theorem cut_of_exposed (ha : Still a) (hnames : ∀ p ∈ pieces, IsName p.2)
    (h : ∀ i, a.length ≤ i →
      (ExposedAt (a ++ weave reference pieces tail) i ↔ ∃ name, (i, name) ∈ places a.length pieces)) :
    (∀ p ∈ pieces, Free p.1 ∧ ¬ Shows p.1) ∧ ¬ Shows tail := by
  induction pieces generalizing a with
  | nil =>
    refine ⟨nofun, ?_⟩
    rintro ⟨i, hi⟩
    obtain ⟨name, hmem⟩ := (h (a.length + i) (Nat.le_add_right ..)).1 ((ha.exposedAt_append tail i).2 hi)
    cases hmem
  | cons p pieces ih =>
    obtain ⟨front, name⟩ := p
    have hname : IsName name := hnames _ List.mem_cons_self
    have hwoven : a ++ weave reference ((front, name) :: pieces) tail =
        a ++ front ++ reference name ++ weave reference pieces tail := by simp [weave]
    have hlength : (a ++ front ++ reference name).length = a.length + front.length + (reference name).length := by
      rw [List.length_append, List.length_append]
    -- the first reference is exposed, so the text before it ends in the open
    have hhere : Free (a ++ front) := by
      have hexposed := (h (a.length + front.length) (Nat.le_add_right ..)).2 ⟨name, List.mem_cons_self⟩
      have hfree := hexposed.free
      rwa [hwoven, List.append_assoc, ← List.length_append, List.take_left] at hfree
    obtain ⟨hpieces, htail⟩ := ih (hhere.still_reference hname) (fun p hp => hnames p (List.mem_cons_of_mem _ hp)) (by
      intro i hi
      rw [← hwoven, h i (by omega), places, hlength]
      -- behind the first reference it is not among the places any more
      have hfirst : ∀ n, (i, n) ≠ (a.length + front.length, name) := by
        rintro n heq
        have hplace := congrArg Prod.fst heq
        dsimp only at hplace
        rw [hlength, reference, List.length_cons] at hi
        omega
      simp only [List.mem_cons, hfirst, false_or])
    refine ⟨?_, htail⟩
    intro p hp
    rcases List.mem_cons.1 hp with rfl | hp
    · refine ⟨(ha.free_append front).1 hhere, ?_⟩
      rintro ⟨i, hi⟩
      have hlt : i + 1 < front.length := hi.succ_lt
      have hwhole : ExposedAt (a ++ weave reference ((front, name) :: pieces) tail) (a.length + i) := by
        rw [ha.exposedAt_append, weave, List.append_assoc, exposedAt_append_left hlt]
        exact hi
      obtain ⟨n, hmem⟩ := (h (a.length + i) (Nat.le_add_right ..)).1 hwhole
      rcases List.mem_cons.1 hmem with heq | hmem
      · have hplace : a.length + i = a.length + front.length := congrArg Prod.fst heq
        omega
      · have hle := le_of_mem_places hmem
        omega
    · exact hpieces p hp

/-- **The converted text shows a reference** where a piece ends with a dollar sign, and nowhere else. -/
theorem shows_expressions (hnames : ∀ p ∈ pieces, IsName p.2) (hpieces : ∀ p ∈ pieces, Free p.1 ∧ ¬ Shows p.1)
    (htail : ¬ Shows tail) : Shows (weave expression pieces tail) ↔ ∃ p ∈ pieces, p.1.getLast? = some '$' := by
  induction pieces with
  | nil => simpa [weave] using htail
  | cons p pieces ih =>
    obtain ⟨front, name⟩ := p
    obtain ⟨hfree, hfront⟩ := hpieces _ List.mem_cons_self
    have hname : IsName name := hnames _ List.mem_cons_self
    have hrest := ih (fun p hp => hnames p (List.mem_cons_of_mem _ hp)) fun p hp => hpieces p (List.mem_cons_of_mem _ hp)
    have hstill := hfree.still_expression hname
    have hdollar : '$' ∉ expression name := by
      rw [mem_expression]
      rintro (hmem | hmem)
      · revert hmem
        decide
      · cases hname.2 '$' hmem
    rw [weave]
    simp only [List.mem_cons, exists_eq_or_imp]
    rw [← hrest]
    constructor
    · rintro ⟨i, hi⟩
      -- a reference shows in the first piece with its expression, or behind them
      by_cases hlt : i < (front ++ expression name).length
      · left
        have hbyte := hi.dollar
        rw [List.getElem?_append_left hlt] at hbyte
        have hinside : i < front.length := by
          by_contra hbehind
          rw [List.getElem?_append_right (Nat.le_of_not_lt hbehind)] at hbyte
          exact hdollar (List.mem_of_getElem? hbyte)
        rw [List.getElem?_append_left hinside] at hbyte
        -- the piece shows none, so the dollar sign is its last byte
        by_cases hnext : i + 1 < front.length
        · rw [List.append_assoc, exposedAt_append_left hnext] at hi
          exact absurd ⟨i, hi⟩ hfront
        · rw [List.getLast?_eq_getElem?, show front.length - 1 = i by omega]
          exact hbyte
      · right
        refine ⟨i - (front ++ expression name).length, ?_⟩
        rw [← hstill.exposedAt_append, Nat.add_sub_cancel' (Nat.le_of_not_lt hlt)]
        exact hi
    · rintro (hlast | ⟨i, hi⟩)
      · obtain ⟨f, rfl⟩ := List.getLast?_eq_some_iff.1 hlast
        refine ⟨f.length, ?_, ?_, ?_⟩
        · simp
        · simp [expression_eq, isIdentStart]
        · simpa using hfree.of_dollar
      · exact ⟨_, (hstill.exposedAt_append _ i).2 hi⟩

/-- What holds of a piece can be read off the text before the reference behind it, if the references before the piece
make no difference. -/
theorem exists_piece_iff {P : Text → Prop}
    (hP : ∀ a name front, IsName name → (P (a ++ reference name ++ front) ↔ P front))
    (ha : ∀ front, P (a ++ front) ↔ P front) (hnames : ∀ p ∈ pieces, IsName p.2) : (∃ p ∈ pieces, P p.1) ↔
      ∃ i name, (i, name) ∈ places a.length pieces ∧ P ((a ++ weave reference pieces tail).take i) := by
  induction pieces generalizing a with
  | nil => simp [places]
  | cons p pieces ih =>
    obtain ⟨front, name⟩ := p
    have hname : IsName name := hnames _ List.mem_cons_self
    have hrest := ih (a := a ++ front ++ reference name) (hP (a ++ front) name · hname)
      fun p hp => hnames p (List.mem_cons_of_mem _ hp)
    have hwoven : a ++ weave reference ((front, name) :: pieces) tail =
        a ++ front ++ reference name ++ weave reference pieces tail := by simp [weave]
    have htake : (a ++ front ++ reference name ++ weave reference pieces tail).take (a.length + front.length) =
        a ++ front := by
      rw [List.append_assoc, ← List.length_append, List.take_left]
    simp only [List.mem_cons, exists_eq_or_imp]
    rw [hrest, hwoven, places, List.length_append, List.length_append, ← ha front]
    constructor
    · rintro (h | ⟨i, n, hmem, h⟩)
      · exact ⟨_, name, List.mem_cons_self, htake.symm ▸ h⟩
      · exact ⟨i, n, List.mem_cons_of_mem _ hmem, h⟩
    · rintro ⟨i, n, hmem, h⟩
      rcases List.mem_cons.1 hmem with heq | hmem
      · cases heq
        exact .inl (htake ▸ h)
      · exact .inr ⟨i, n, hmem, h⟩

/-! ## The conversion -/

/-- **A text is woven of its exposed references**, so the text converted is woven of expressions, and what holds of a
piece can be read off the text before an exposed reference. -/
theorem exists_cut (t : Text) : ∃ pieces tail, t = weave reference pieces tail ∧
    (convertReferences t).1 = weave expression pieces tail ∧ (∀ p ∈ pieces, IsName p.2) ∧
    (∀ p ∈ pieces, Free p.1 ∧ ¬ Shows p.1) ∧ ¬ Shows tail ∧
    ∀ P : Text → Prop, (∀ a name front, IsName name → (P (a ++ reference name ++ front) ↔ P front)) →
      ((∃ p ∈ pieces, P p.1) ↔ ∃ i, ExposedAt t i ∧ P (t.take i)) := by
  obtain ⟨pieces, tail, htext, hresult, hplaces⟩ := weave_of_exposed t
  have hmem : ∀ i name, (i, name) ∈ places 0 pieces ↔ ExposedAt t i ∧ name = nameAt (codeMask t) i := by
    intro i name
    rw [mem_places_iff hplaces, exposedAt_iff]
    tauto
  have hexposed : ∀ i, ExposedAt t i ↔ ∃ name, (i, name) ∈ places 0 pieces := by
    intro i
    constructor
    · intro hi
      exact ⟨_, (hmem i _).2 ⟨hi, rfl⟩⟩
    · rintro ⟨name, hname⟩
      exact ((hmem i name).1 hname).1
  -- what is cut out are the names that the mask shows
  have hnames : ∀ p ∈ pieces, IsName p.2 := by
    intro p hp
    obtain ⟨i, hi⟩ := mem_places_of_mem 0 hp
    obtain ⟨hexposed, hname⟩ := (hmem i p.2).1 hi
    rw [hname]
    exact isName_of_refers (exposedAt_iff.1 hexposed).1
  obtain ⟨hpieces, htail⟩ := cut_of_exposed (a := []) still_nil hnames fun i _ => by
    rw [List.nil_append, ← htext]
    exact hexposed i
  refine ⟨pieces, tail, htext, hresult, hnames, hpieces, htail, ?_⟩
  intro P hP
  have hiff : (∃ p ∈ pieces, P p.1) ↔
      ∃ i name, (i, name) ∈ places 0 pieces ∧ P (([] ++ weave reference pieces tail).take i) :=
    exists_piece_iff (a := []) hP (fun front => Iff.rfl) hnames
  rw [List.nil_append, ← htext] at hiff
  rw [hiff]
  constructor
  · rintro ⟨i, name, hi, h⟩
    exact ⟨i, (hexposed i).2 ⟨name, hi⟩, h⟩
  · rintro ⟨i, hi, h⟩
    obtain ⟨name, hname⟩ := (hexposed i).1 hi
    exact ⟨i, name, hname, h⟩

theorem length_expressions (pieces : List (Text × Text)) (tail : Text) :
    (weave expression pieces tail).length = (weave reference pieces tail).length + 6 * pieces.length := by
  induction pieces with
  | nil => rfl
  | cons p pieces ih =>
    rw [weave, weave, expression_eq, reference]
    simp only [List.length_append, List.length_cons, ih, List.length_nil]
    show _ + (5 + _ + 1 + 1) + _ = _
    omega

/-- **A text is converted to itself exactly if it shows no reference.** -/
theorem converted_eq_self_iff (t : Text) : (convertReferences t).1 = t ↔ ¬ Shows t := by
  constructor
  · intro h
    obtain ⟨pieces, tail, htext, hresult, -, -, htail, -⟩ := exists_cut t
    have hlength := length_expressions pieces tail
    rw [← hresult, ← htext, h] at hlength
    have hnone : pieces = [] := List.length_eq_zero_iff.1 (by omega)
    rw [htext, hnone]
    exact htail
  · intro h
    rw [shows_iff, not_ne_iff] at h
    rw [(convertReferences_eq t).1, h]
    rfl

/-- **The converted text shows a reference exactly if the text has an exposed one right behind a dollar sign.** -/
theorem shows_converted_iff (t : Text) :
    Shows (convertReferences t).1 ↔ ∃ i, ExposedAt t i ∧ (t.take i).getLast? = some '$' := by
  obtain ⟨pieces, tail, -, hresult, hnames, hpieces, htail, hread⟩ := exists_cut t
  rw [hresult, shows_expressions hnames hpieces htail]
  refine hread (fun u => u.getLast? = some '$') ?_
  intro a name front hname
  by_cases hfront : front = []
  · have hword : reference name ≠ [] := List.cons_ne_nil _ _
    rw [hfront, List.append_nil, getLast?_append_right a hword]
    have hlast : (reference name).getLast? ≠ some '$' := by
      intro hlast
      have hne : name ≠ [] := by
        rintro rfl
        cases hname.1
      rw [reference, List.getLast?_cons, List.getLast?_eq_some_getLast hne] at hlast
      have hdollar : name.getLast hne = '$' := Option.some.inj hlast
      cases hname.2 '$' (hdollar ▸ List.getLast_mem hne)
    simp [hlast]
  · rw [getLast?_append_right _ hfront]

end Flatsheet.Style
