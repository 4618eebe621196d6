import Flatsheet.Proofs.Style.Abreast

/-!
# `Proofs.Style.Declarations` — the declarations of a text that loses a blank

The scanner of declarations is no sweep: it keeps the stack of open blocks, and it cuts names and values out of
the text itself. It finds the same declarations in a text that has lost a blank at the margin of a line, with
the same names and flags (`find_loses`).
-/

namespace Flatsheet.Style

open Text

variable {t t' v q word : Text} {a b : Text} {x : Char} {c c' : Cursor} {n : Nat}

/-! ## Flags -/

theorem trimLeft_append (a b : Text) : trimLeft (a ++ b) =
    if (trimLeft a).isEmpty then trimLeft b else trimLeft a ++ b := List.dropWhile_append

theorem trimRight_append (a b : Text) : trimRight (a ++ b) =
    if (trimRight b).isEmpty then trimRight a else a ++ trimRight b := by
  unfold trimRight
  rw [List.reverse_append, List.dropWhile_append, List.isEmpty_reverse]
  split
  · rfl
  · rw [List.reverse_append, List.reverse_reverse]

theorem trimRight_cons_of_blank (blank : isBlank x = true) (r : Text) :
    trimRight (x :: r) = if (trimRight r).isEmpty then [] else x :: trimRight r := by
  have hnone : trimRight [x] = [] := by
    show trimRight ([] ++ [x]) = []
    rw [trimRight_concat, if_pos blank]
    rfl
  have happend := trimRight_append [x] r
  rw [hnone] at happend
  exact happend

/-- **A trimmed text loses a blank before a line feed**, if it loses one at all. -/
theorem trim_loses (h : Loses n t t') : trim t' = trim t ∨
    ∃ p x q, isBlank x = true ∧ trim t = p ++ x :: '\n' :: q ∧ trim t' = p ++ '\n' :: q := by
  obtain @⟨a, x, b, -, blank, margin⟩ := h
  have hleft : trimLeft (x :: b) = trimLeft b := by
    unfold trimLeft
    rw [List.dropWhile_cons, if_pos blank]
  unfold trim
  rw [trimLeft_append, trimLeft_append, hleft]
  split
  · exact .inl rfl
  · rcases margin with rfl | rfl | ⟨b, rfl⟩
    · contradiction
    · left
      rw [List.append_nil, trimRight_concat, if_pos blank]
    · have hnewline : isBlank '\n' = true := rfl
      rw [trimRight_append, trimRight_append, trimRight_cons_of_blank blank, trimRight_cons_of_blank hnewline]
      by_cases hrest : (trimRight b).isEmpty = true
      · left
        simp [hrest]
      · right
        refine ⟨trimLeft a, x, trimRight b, blank, ?_, ?_⟩
        · simp [hrest]
        · simp [hrest]

/-- What a text ends with does not reach over a line feed. -/
theorem endsWith_of_newline (hword : IsWord word) (p q : Text) : endsWith (p ++ '\n' :: q) word = endsWith q word := by
  have hreverse : ∀ s : Text, endsWith s word = startsWith s.reverse word.reverse := fun s => rfl
  have hback : IsWord word.reverse := by
    intro c hc
    exact hword c (List.mem_reverse.1 hc)
  rw [hreverse, hreverse, List.reverse_append, List.reverse_cons, List.append_assoc, List.singleton_append,
    startsWith_append_of_stops hback (stops_cons rfl _)]

/-- How the default flag of a value is found. -/
theorem isDefault_eq (v : Text) : (splitFlags v).2 =
    if trim v = [] then false
    else if endsWith (lower (trim v)) "!default".toList then true
    else if endsWith (lower (trim v)) "!global".toList then (splitFlags ((trim v).take ((trim v).length - 7))).2
    else false := by
  rw [splitFlags]
  split
  · rfl
  · split
    · rfl
    · split
      · rfl
      · rfl

/-- **The default flag of a value stays when the value loses a blank.** -/
theorem isDefault_loses (h : Loses n v t') : (splitFlags t').2 = (splitFlags v).2 := by
  -- by the length of the value, as flags are taken off its end
  generalize hlength : v.length = m
  induction m using Nat.strongRecOn generalizing n v t' with
  | ind m ih =>
    rw [isDefault_eq, isDefault_eq v]
    rcases trim_loses h with heq | ⟨p, x, q, blank, htrim, htrim'⟩
    · rw [heq]
    · have hends : ∀ word, IsWord word → endsWith (lower (trim v)) word = endsWith (lower q) word ∧
          endsWith (lower (trim t')) word = endsWith (lower q) word := by
        intro word hword
        have hlower : lower (trim v) = (lower p ++ [x.toLower]) ++ '\n' :: lower q := by
          rw [htrim]
          simp [lower]
        have hlower' : lower (trim t') = lower p ++ '\n' :: lower q := by
          rw [htrim']
          simp [lower]
        rw [hlower, hlower', endsWith_of_newline hword, endsWith_of_newline hword]
        exact ⟨rfl, rfl⟩
      have hdefault := hends "!default".toList (by decide)
      have hglobal := hends "!global".toList (by decide)
      have hne : trim v ≠ [] := by
        rw [htrim]
        simp
      have hne' : trim t' ≠ [] := by
        rw [htrim']
        simp
      rw [if_neg hne, if_neg hne', hdefault.1, hdefault.2, hglobal.1, hglobal.2]
      split
      · rfl
      · split
        · next hflag =>
          -- the flag is behind the blank, so what is left loses the blank too
          have hq : 7 ≤ q.length := by
            have hle := (List.isSuffixOf_iff_suffix.1 hflag).length_le
            rw [lower, List.length_map] at hle
            exact hle
          have hle := length_trim_le v
          have hcut : (trim v).take ((trim v).length - 7) = p ++ x :: '\n' :: q.take (q.length - 7) := by
            have hlong : (p ++ x :: '\n' :: q).length - 7 = p.length + (q.length - 7 + 1 + 1) := by
              simp
              omega
            rw [htrim, hlong, List.take_length_add_append, List.take_succ_cons, List.take_succ_cons]
          have hcut' : (trim t').take ((trim t').length - 7) = p ++ '\n' :: q.take (q.length - 7) := by
            have hlong : (p ++ '\n' :: q).length - 7 = p.length + (q.length - 7 + 1) := by
              simp
              omega
            rw [htrim', hlong, List.take_length_add_append, List.take_succ_cons]
          have hshort : (p ++ x :: '\n' :: q.take (q.length - 7)).length < m := by
            rw [← hcut, List.length_take]
            have hpos := List.length_pos_iff.2 hne
            omega
          rw [hcut, hcut']
          exact ih _ hshort (.intro rfl blank (.inr (.inr ⟨_, rfl⟩))) rfl
        · rfl

/-! ## Values -/

/-- **The end of a value is found past a lost blank.** A hash sign is remembered only right before a brace. -/
theorem valueLength?_loss (blank : isBlank x = true) (ends : Ends b) {parens : Int} {braces : Nat} {hash : Bool}
    (hhash : hash = true → v.head? = some '{') : valueLength? parens braces hash (v ++ x :: b) =
      (valueLength? parens braces hash (v ++ b)).map (widen v.length) := by
  induction v generalizing parens braces hash with
  | nil =>
    have hnot : hash = false := by
      rw [Bool.eq_false_iff]
      intro h
      cases hhash h
    have hne : ∀ y, isBlank y = false → x ≠ y := by
      rintro y hy rfl
      rw [hy] at blank
      cases blank
    rw [List.nil_append, valueLength?]
    simp only [hnot, hne '{' rfl, hne '}' rfl, hne '(' rfl, hne ')' rfl, hne '#' rfl, hne ';' rfl]
    by_cases hbraces : 0 < braces
    · simp [hbraces]
      rfl
    · have hzero : braces = 0 := Nat.eq_zero_of_not_pos hbraces
      simp [hzero]
      rfl
  | cons y v ih =>
    -- further on both scans are in the same state
    have hstep : ∀ {p : Int} {k : Nat} {h : Bool}, (h = true → v.head? = some '{') →
        (valueLength? p k h (v ++ x :: b)).map (· + 1) =
          ((valueLength? p k h (v ++ b)).map (· + 1)).map (widen (y :: v).length) := by
      intro p k h hahead
      rw [ih hahead, Option.map_map, Option.map_map, widen_succ]
    have hplain : ∀ {p : Int} {k : Nat}, (valueLength? p k false (v ++ x :: b)).map (· + 1) =
        ((valueLength? p k false (v ++ b)).map (· + 1)).map (widen (y :: v).length) := by
      intro p k
      exact hstep (by simp)
    have hahead : decide ((v ++ x :: b).head? = some '{') = decide ((v ++ b).head? = some '{') :=
      decide_eq_decide.2 ((head?_append_of_stops rfl (stops_cons blank b)).trans
        (head?_append_of_stops rfl ends.stops).symm)
    rw [List.cons_append, List.cons_append, valueLength?, valueLength?, hahead]
    split
    · split
      · exact hplain
      · split
        · exact hplain
        · exact hplain
    · split
      · exact hplain
      · split
        · exact hplain
        · split
          · next hmark =>
            simp only [Bool.and_eq_true, decide_eq_true_eq] at hmark
            exact hstep fun _ => (head?_append_of_stops rfl ends.stops).1 hmark.2
          · split
            · rfl
            · split
              · rfl
              · exact hplain

/-! ## Declarations -/

theorem pos_skip (p : Char → Bool) (c : Cursor) : (c.skip p).pos = c.pos + (c.rest.takeWhile p).length := by
  rw [Cursor.skip, Cursor.pos_advance, Nat.min_eq_left]
  · rfl
  · exact (List.takeWhile_sublist p).length_le

/-- The text shows the identifier that its mask shows. -/
theorem slice_ident (h : c.At (codeMask t)) : slice t c.pos (c.skip isIdent).pos = c.rest.takeWhile isIdent := by
  apply Mask.slice_of_codeMask
  · have hprefix : c.rest.takeWhile isIdent <+: c.rest := List.takeWhile_prefix isIdent
    rw [slice, ← h.rest, pos_skip, Nat.add_sub_cancel_left]
    exact (List.prefix_iff_eq_take.1 hprefix).symm
  · intro hspace
    have hident := List.all_eq_true.1 List.all_takeWhile ' ' hspace
    cases hident

/-- **The name of a declaration is an identifier.** -/
theorem ident_of_at? {d : Declaration} (h : c.At (codeMask t)) (hfound : Declaration.at? t c = some d) :
    ∀ y ∈ d.name, isIdent y = true := by
  unfold Declaration.at? at hfound
  dsimp only at hfound
  split at hfound
  · cases hfound
  · next hcolon =>
    obtain ⟨n, -, rfl⟩ := Option.map_eq_some_iff.1 hfound
    cases hrest : c.rest with
    | nil =>
      -- a cursor at the end stays there, and sees no colon
      have hend : ∀ {d : Cursor} (m : Nat), d.rest = [] → (d.advance m).rest = [] := by
        intro d m hd
        show d.rest.drop m = []
        rw [hd, List.drop_nil]
      have hnone : (((c.advance 1).skip isIdent).skip isBlank).rest = [] := hend _ (hend _ (hend 1 hrest))
      rw [Cursor.byte?, hnone] at hcolon
      simp at hcolon
    | cons y r =>
      have hpos : (c.advance 1).pos = c.pos + 1 := by
        rw [Cursor.pos_advance, hrest, List.length_cons, Nat.min_eq_left (Nat.succ_le_succ (Nat.zero_le _))]
      show ∀ y ∈ slice t (c.pos + 1) ((c.advance 1).skip isIdent).pos, isIdent y = true
      rw [← hpos, slice_ident (h.advance 1)]
      exact List.all_eq_true.1 List.all_takeWhile

/-- A declaration by the cursors at its parts. -/
theorem at?_eq (h : c.Reads (codeMask t)) (hdollar : c.byte? = some '$') : Declaration.at? t c =
    let name := c.advance 1
    let colon := (name.skip isIdent).skip isBlank
    let value := colon.advance 1
    if (name.rest.takeWhile isIdent).isEmpty || colon.byte? ≠ some ':' then none
    else (valueLength? 0 0 false value.rest).map fun n =>
      let flags := splitFlags (slice t value.pos (value.advance n).pos)
      ⟨⟨c.pos, (value.advance (n + 1)).pos⟩, name.rest.takeWhile isIdent, flags.1, flags.2⟩ := by
  have hpos : ∀ {c : Cursor} {y : Char}, c.byte? = some y → (c.advance 1).pos = c.pos + 1 := by
    intro c y hy
    obtain ⟨r, hr⟩ := List.head?_eq_some_iff.1 hy
    rw [Cursor.pos_advance, hr, List.length_cons, Nat.min_eq_left (Nat.succ_le_succ (Nat.zero_le _))]
  have hname := hpos hdollar
  have hempty : ((c.advance 1).skip isIdent).pos = c.pos + 1 ↔
      ((c.advance 1).rest.takeWhile isIdent).isEmpty = true := by
    rw [pos_skip, hname, List.isEmpty_iff, ← List.length_eq_zero_iff]
    omega
  have hident := slice_ident (h.advance 1).at
  rw [hname] at hident
  unfold Declaration.at?
  simp only [hempty, hident, Bool.decide_eq_true]
  split
  · rfl
  · next hcolon =>
    simp only [Bool.or_eq_true, decide_eq_true_eq, not_or, Decidable.not_not] at hcolon
    have hvalue := hpos hcolon.2
    apply Option.map_congr
    intro n hn
    obtain ⟨hlt, -⟩ := List.getElem?_eq_some_iff.1 (valueLength?_spec hn)
    -- the value ends inside the text, so the cursor behind it is as far as its length says
    have hend : ∀ {d : Cursor} {m : Nat}, m ≤ d.rest.length → (d.advance m).pos = d.pos + m := by
      intro d m hle
      rw [Cursor.pos_advance, Nat.min_eq_left hle]
    rw [hend (Nat.le_of_lt hlt), hend hlt, hvalue]
    rfl

/-- **Two finds are one declaration**, and the cursors are abreast behind it. -/
structure Matches (a : Text) (x : Char) (b : Text) (c c' : Cursor) (d d' : Declaration) : Prop where
  name : d.name = d'.name
  isDefault : d.isDefault = d'.isDefault
  goesOn : c.pos < d.span.stop ∧ c'.pos < d'.span.stop
  abreast : Abreast a x b (c.advance (d.span.stop - c.pos)) (c'.advance (d'.span.stop - c'.pos))

theorem at?_abreast (hloss : Loses a.length t t') (hcode : codeMask t = a ++ x :: b) (hcode' : codeMask t' = a ++ b)
    (h : Abreast a x b c c') (hdollar : c.byte? = some '$') :
    Option.Rel (Matches a x b c c') (Declaration.at? t c) (Declaration.at? t' c') := by
  obtain ⟨hreads, hreads'⟩ := h.reads
  have hdollar' := (h.byte?_iff rfl).1 hdollar
  have hword : ∀ {d : Cursor} {y : Char}, d.byte? = some y → startsWith d.rest [y] = true := by
    intro d y hy
    obtain ⟨r, hr⟩ := List.head?_eq_some_iff.1 hy
    rw [hr]
    simp [startsWith]
  have hname : Abreast a x b (c.advance 1) (c'.advance 1) := h.advance_word (by decide) (hword hdollar)
  -- the two cursors stay abreast over the name, the colon and the value
  have hcolon := (hname.skip skips_ident).skip (p := isBlank) fun _ _ blank => blank
  rw [at?_eq (hcode ▸ hreads) hdollar, at?_eq (hcode' ▸ hreads') hdollar']
  have hcolons : decide ((((c.advance 1).skip isIdent).skip isBlank).byte? ≠ some ':') =
      decide ((((c'.advance 1).skip isIdent).skip isBlank).byte? ≠ some ':') :=
    decide_eq_decide.2 (not_congr (hcolon.byte?_iff rfl))
  dsimp only
  rw [← hname.takeWhile_eq fun _ => not_isIdent_of_blank, ← hcolons]
  split
  · exact .none
  · next hshown =>
    simp only [Bool.or_eq_true, decide_eq_true_eq, not_or, Decidable.not_not] at hshown
    have hvalue : Abreast a x b ((((c.advance 1).skip isIdent).skip isBlank).advance 1)
        ((((c'.advance 1).skip isIdent).skip isBlank).advance 1) :=
      hcolon.advance_word (by decide) (hword hshown.2)
    have hreach := hvalue.reach (f := valueLength? 0 0 false) fun v blank ends => valueLength?_loss blank ends nofun
    have hlt : ∀ {d : Cursor} {w : Text} {m : Nat}, d.Reads w → d.byte? = some '$' →
        d.pos < (((((d.advance 1).skip isIdent).skip isBlank).advance 1).advance (m + 1)).pos := by
      intro d w m hd hy
      have hfirst := (hd.at.word (hword hy)).2
      have hskip := Nat.le_trans ((d.advance 1).le_pos_skip isIdent) (((d.advance 1).skip isIdent).le_pos_skip isBlank)
      have hmove := (((d.advance 1).skip isIdent).skip isBlank).le_pos_advance 1
      have hmove' := ((((d.advance 1).skip isIdent).skip isBlank).advance 1).le_pos_advance (m + 1)
      simp only [List.length_singleton] at hfirst
      omega
    generalize hn : valueLength? 0 0 false ((((c.advance 1).skip isIdent).skip isBlank).advance 1).rest = n at hreach ⊢
    generalize hn' : valueLength? 0 0 false ((((c'.advance 1).skip isIdent).skip isBlank).advance 1).rest = n' at hreach ⊢
    cases hreach with
    | none => exact .none
    | @some n n' hboth =>
      obtain ⟨hend, hbehind⟩ := hboth
      have hgo := hlt hreads hdollar (m := n)
      have hgo' := hlt hreads' hdollar' (m := n')
      obtain ⟨hcome, hcome'⟩ := h.advance_eq hbehind (Nat.le_of_lt hgo) (Nat.le_of_lt hgo')
      refine .some ⟨rfl, ?_, ⟨hgo, hgo'⟩, ?_⟩
      · show (splitFlags _).2 = (splitFlags _).2
        rw [hvalue.pos_eq, hend.pos_eq]
        rcases hloss.slice _ _ with heq | ⟨k, hslice⟩
        · rw [← heq]
        · exact (isDefault_loses hslice).symm
      · show Abreast a x b (c.advance (_ - c.pos)) (c'.advance (_ - c'.pos))
        rw [hcome, hcome']
        exact hbehind

/-! ## The scanner -/

theorem findFrom_wait (s : Declaration.Scan) (c : Cursor) (n : Nat) :
    Declaration.findFrom t s c.seen c.pos n c.rest =
      Declaration.findFrom t s (c.advance n).seen (c.advance n).pos 0 (c.advance n).rest := by
  induction n generalizing c with
  | zero => rfl
  | succ n ih =>
    cases hrest : c.rest with
    | nil =>
      unfold Cursor.advance
      rw [hrest]
      rfl
    | cons y r =>
      rw [Declaration.findFrom, if_pos (Nat.succ_pos n), Nat.add_sub_cancel, Nat.add_comm n 1, Cursor.advance_add,
        ← ih]
      unfold Cursor.advance
      rw [hrest]
      rfl

/-- The declarations found from a cursor on. -/
def findOn (t : Text) (s : Declaration.Scan) (c : Cursor) : List Declaration :=
  Declaration.findFrom t s c.seen c.pos 0 c.rest

/-- The declaration that the scanner sees at a cursor. -/
def seen? (t : Text) (s : Declaration.Scan) (c : Cursor) (y : Char) : Option Declaration :=
  if s.admits && y = '$' then Declaration.at? t c else none

theorem findOn_none {s : Declaration.Scan} {y : Char} (hy : c.byte? = some y) (h : seen? t s c y = none) :
    findOn t s c = findOn t (s.next c.byteBefore? c.rest y) (c.advance 1) := by
  obtain ⟨seen, pos, rest⟩ := c
  obtain ⟨r, rfl⟩ := List.head?_eq_some_iff.1 hy
  unfold seen? at h
  show Declaration.findFrom t s seen pos 0 (y :: r) = _
  rw [Declaration.findFrom, if_neg (Nat.lt_irrefl 0), h]
  rfl

theorem findOn_some {s : Declaration.Scan} {y : Char} {d : Declaration} (hy : c.byte? = some y)
    (h : seen? t s c y = some d) (hlt : c.pos < d.span.stop) :
    findOn t s c = d :: findOn t { s with statement := none } (c.advance (d.span.stop - c.pos)) := by
  obtain ⟨seen, pos, rest⟩ := c
  obtain ⟨r, rfl⟩ := List.head?_eq_some_iff.1 hy
  unfold seen? at h
  have hwait := findFrom_wait (t := t) { s with statement := none } ⟨seen, pos, y :: r⟩ (d.span.stop - pos)
  rw [Declaration.findFrom, if_pos (Nat.sub_pos_of_lt hlt)] at hwait
  show Declaration.findFrom t s seen pos 0 (y :: r) = _
  rw [Declaration.findFrom, if_neg (Nat.lt_irrefl 0), h]
  exact congrArg (d :: ·) hwait

/-- At the same byte the state of the scanner changes in the same way. -/
theorem next_abreast (s : Declaration.Scan) {y : Char} (h : Abreast a x b c c') (hy : c.byte? = some y) :
    s.next c.byteBefore? c.rest y = s.next c'.byteBefore? c'.rest y := by
  unfold Declaration.Scan.next
  cases shown : isBlank y with
  | true => rfl
  | false =>
    have hhash : (c.byteBefore? = some '#') = (c'.byteBefore? = some '#') :=
      propext (h.byteBefore?_iff rfl shown hy)
    have hhead : Block.ofHead c.rest = Block.ofHead c'.rest := by
      unfold Block.ofHead
      rw [h.startsWith_eq (by decide), h.startsWith_eq (by decide)]
    simp only [hhash, hhead]

/-- What is known of a declaration without its place and its value. -/
def Declaration.label (d : Declaration) : Text × Bool := (d.name, d.isDefault)

/-- **A text that loses a blank keeps its declarations**, with their names and flags. -/
theorem find_loses (h : Loses n t t') :
    (Declaration.find t).map Declaration.label = (Declaration.find t').map Declaration.label := by
  have hcode : Loses n (codeMask t) (codeMask t') := h.mask _
  show (findOn t {} ⟨[], 0, codeMask t⟩).map _ = (findOn t' {} ⟨[], 0, codeMask t'⟩).map _
  generalize hw : codeMask t = w at hcode
  generalize hw' : codeMask t' = w' at hcode
  obtain @⟨a, x, b, length, blank, margin⟩ := hcode
  subst length
  -- at the lost blank the one scan takes a step that the other one does not, everywhere else both take the same
  refine Abreast.walk_start (P := fun c c' => ∀ s, (findOn t s c).map Declaration.label =
    (findOn t' s c').map Declaration.label) blank margin ?_ ?_ ?_ {}
  · intro c c' hrest hrest' s
    rw [findOn, findOn, hrest, hrest']
    rfl
  · intro c c' hbyte blank hnext s
    have hnone : seen? t s c x = none := by
      have hdollar : x ≠ '$' := by
        rintro rfl
        cases blank
      simp [seen?, hdollar]
    have hsame : s.next c.byteBefore? c.rest x = s := by
      rw [Declaration.Scan.next, if_pos blank]
    rw [findOn_none hbyte hnone, hsame]
    exact hnext s
  · intro c c' y habreast hy hy' hnext hon s
    have hseen : Option.Rel (Matches a x b c c') (seen? t s c y) (seen? t' s c' y) := by
      unfold seen?
      split
      · next hadmits =>
        simp only [Bool.and_eq_true, decide_eq_true_eq] at hadmits
        exact at?_abreast h hw hw' habreast (hadmits.2 ▸ hy)
      · exact .none
    generalize hd : seen? t s c y = d at hseen
    generalize hd' : seen? t' s c' y = d' at hseen
    cases hseen with
    | none =>
      rw [findOn_none hy hd, findOn_none hy' hd', next_abreast s habreast hy]
      exact hon _ _ hnext (Cursor.length_rest_lt hy Nat.zero_lt_one) _
    | @some d d' hmatch =>
      have hlabel : d.label = d'.label := Prod.ext hmatch.name hmatch.isDefault
      rw [findOn_some hy hd hmatch.goesOn.1, findOn_some hy' hd' hmatch.goesOn.2, List.map_cons, List.map_cons,
        hon _ _ hmatch.abreast (Cursor.length_rest_lt hy (Nat.sub_pos_of_lt hmatch.goesOn.1))]
      exact congrArg (· :: _) hlabel

end Flatsheet.Style
