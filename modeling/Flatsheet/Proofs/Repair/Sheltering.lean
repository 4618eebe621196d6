import Flatsheet.Proofs.Repair.CallsLeft
import Flatsheet.Proofs.Repair.ClosedBlocks
import Flatsheet.Proofs.Repair.Mending
import Flatsheet.Proofs.Repair.Statement

/-!
# `Proofs.Repair.Sheltering` — repairs and the comments of a file

What stands in a comment is still in one after a repair, wherever none of the lines is broken (`Breaks`). A repair that
retouches a line does not break it, unless it joins or parts two bytes that mean something together. One that takes a
statement out of use can do so in three ways: its mark opens no comment, as in a string; the statement ends inside a
comment or a string, which goes on behind it; or a block comment begins in the statement, and the lines behind it were
part of that comment.

A repair is followed line by line (`Treated.readable`), and from there over the lines of a file (`Goes.readable`). On the
way the braces of the code are counted, together with those of the statement that is being taken out of use.
-/

namespace Flatsheet.Repair

open Text Mask

variable {a l l' : Text} {ls ls' : List Text} {start stop : Nat} {s : State} {o : OpenStatement}
  {p q : Option OpenStatement} {u : List (Char × Zone)} {R : State → Text → Text → Prop}

/-! ## Broken lines -/

/-- Something else stands on the line of a stretch, so it gets a block comment around it. -/
def Shared (l : Text) (start stop : Nat) : Prop := ¬ (isBlankLine (l.take start) && isBlankLine (l.drop stop)) = true

instance (l : Text) (start stop : Nat) : Decidable (Shared l start stop) :=
  inferInstanceAs (Decidable (¬ (isBlankLine (l.take start) && isBlankLine (l.drop stop)) = true))

/-- The state in which a comment mark is read that is put in at an offset of a line. -/
def markState (s : State) (l : Text) (start : Nat) : State := State.after (some '\n') s (some '/') (l.take start)

/-- **A repair breaks a line**, which begins in state `s`. -/
inductive Breaks (s : State) (l : Text) : Text → Prop
  /-- Without a parenthesis two bytes mean something together. -/
  | joined (h : Joined (excess l) l) : Breaks s l (balanceParens l)
  /-- The parenthesis behind a name comes between two bytes that mean something together. -/
  | abuts {name : Text} (h : Abuts name l) : Breaks s l (replaceVariable name l)
  /-- The mark of a block comment is put in where it opens none and no line comment hides it. -/
  | enclosed {p : Option OpenStatement} {o : OpenStatement} {start : Nat} (opens : Opens p o start l)
      (shared : Shared l start (o.stop start l)) (hmark : ¬ Begins (markState s l start))
      (hopen : markState s l start ≠ .lineComment) : Breaks s l (o.disable start l).1
  /-- The statement ends before the end of its line, and not in code. -/
  | torn {p : Option OpenStatement} {o : OpenStatement} {start : Nat} (opens : Opens p o start l)
      (shared : Shared l start (o.stop start l)) (hopen : markState s l start ≠ .lineComment)
      (hbehind : o.stop start l < l.length)
      (hstop : State.after (some '\n') s l[o.stop start l]? (l.take (o.stop start l)) ≠ .code) :
      Breaks s l (o.disable start l).1
  /-- The next line was part of a block comment. -/
  | severed {l' : Text} (before : lineEnd s l = .blockComment) (behind : lineEnd s l' = .code) : Breaks s l l'

/-- **A brace is taken out of use that is not in code**, or that gets a mark which is not put into code. -/
def Conceals (s : State) (l l' : Text) : Prop :=
  ∃ (p : Option OpenStatement) (o : OpenStatement) (start : Nat), Opens p o start l ∧ l' = (o.disable start l).1 ∧
    ∃ b ∈ stretchZones s l start (o.stop start l), (b.1 = '{' ∨ b.1 = '}') ∧ (b.2 ≠ .code ∨ markState s l start ≠ .code)

/-- **The line can be read as before**: its comments are, and the lines behind it, and its braces are where they were or
in the statement that is taken out of use. -/
structure Readable (s : State) (p : Option OpenStatement) (l l' : Text) (q : Option OpenStatement) : Prop where
  sheltered : Sheltered (lineZones s l) (lineZones s l')
  ends : lineEnd s l' = lineEnd s l
  counts : ¬ Conceals s l l' →
    net (lineZones s l) + openBraces p = net (lineZones s l') + openBraces q

theorem readable_of_retouched (h : Retouched l l') (hs : Begins s) : Readable s none l l' none := by
  obtain ⟨hsheltered, hnet, hends⟩ := h.reads hs
  exact ⟨hsheltered, hends, fun _ => by rw [hnet]⟩

/-- The next line was in code, or it is no longer part of a block comment. -/
theorem ends_of_not_severed (hs : Begins s) (h : lineEnd s l' = lineEnd s l ∨ lineEnd s l' = .code)
    (hbreaks : ¬ Breaks s l l') : lineEnd s l' = lineEnd s l := by
  rcases h with hsame | hcode
  · exact hsame
  · rcases hs.lineEnd l with hl | hl
    · rw [hcode, hl]
    · exact absurd (.severed hl hcode) hbreaks

/-! ## A statement taken out of use -/

theorem Opens.le (h : Opens p o start l) : start ≤ l.length := by
  cases h with
  | goesOn => exact Nat.zero_le _
  | begins _ _ _ hle _ => exact hle

/-- What stands before a statement. -/
theorem Opens.front (h : Opens p o start l) : (∀ x ∈ l.take start, isSpaceOrTab x = true) ∨ l[start]? = some '@' := by
  cases h with
  | goesOn =>
    left
    intro x hx
    cases hx
  | begins _ _ _ _ hfront => exact hfront

theorem Opens.openBraces_eq (h : Opens p o start l) : openBraces p = o.depth := by
  cases h <;> rfl

/-- Braces of the code count as they stand. -/
theorem net_eq_allIn (h : ∀ b ∈ u, b.1 = '{' ∨ b.1 = '}' → b.2 = .code) : net u = net (allIn .code (u.map Prod.fst)) := by
  induction u with
  | nil => rfl
  | cons b u ih =>
    obtain ⟨c, z⟩ := b
    have hone : net [(c, z)] = net [(c, .code)] := by
      by_cases hbrace : c = '{' ∨ c = '}'
      · rw [show z = .code from h _ List.mem_cons_self hbrace]
      · rw [not_or] at hbrace
        rw [net_of_ne fun _ => hbrace, net_of_ne fun _ => hbrace]
    rw [List.map_cons, net_allIn_cons, net_cons, hone, ih fun b hb => h b (List.mem_cons_of_mem _ hb)]

theorem mem_isBlankLine {x : Char} (h : isBlankLine a = true) (hx : x ∈ a) : x = ' ' ∨ x = '\t' ∨ x = '\r' := by
  have hall := List.all_eq_true.1 h x hx
  simpa [or_assoc] using hall

theorem mild_of_isBlankLine (h : isBlankLine a = true) : ∀ x ∈ a, Mild x := by
  intro x hx
  rcases mem_isBlankLine h hx with rfl | rfl | rfl <;> decide

/-- A blank text has no braces. -/
theorem net_blank {before ahead : Option Char} (h : isBlankLine a = true) : net (zoned before s ahead a) = 0 := by
  have hbrace : ∀ x, x = '{' ∨ x = '}' → x ∉ a := by
    rintro x hx hmem
    rcases mem_isBlankLine h hmem with rfl | rfl | rfl <;> (revert hx; decide)
  exact net_zoned ⟨hbrace '{' (.inl rfl), hbrace '}' (.inr rfl)⟩

theorem quote_feed (hline : '\n' ∉ l) (start stop : Nat) : '\n' ∉ quote l start stop := by
  have hslice : '\n' ∉ slice l start stop := fun h => hline (List.mem_of_mem_drop (List.mem_of_mem_take h))
  intro h
  simp only [quote, List.mem_append, or_assoc] at h
  rcases h with h | h | h
  · exact absurd h (by decide)
  · rcases mem_breakCommentEnds h with h | h
    · exact hslice (mem_of_mem_trim h)
    · exact absurd h (by decide)
  · exact absurd h (by decide)

/-- **A statement is sheltered in its comment.** -/
theorem sheltered_quote (h : u.map Prod.fst = slice l start stop) :
    Sheltered u (allIn .comment (comment (quote l start stop))) := by
  have hmark : comment (quote l start stop) =
      "/* ".toList ++ (breakCommentEnds (trim (slice l start stop)) ++ " */".toList) := by
    simp [comment, quote]
  have hopen : Sheltered [] (allIn .comment "/* ".toList) := .of_added _
  have hclose : Sheltered [] (allIn .comment " */".toList) := .of_added _
  rw [hmark, allIn_append, allIn_append]
  simpa using hopen.append ((sheltered_trim h).append hclose)

/-- **The braces of a statement** count as they stand, unless one is concealed. -/
theorem Opens.net_stretch (h : Opens p o start l) (hconceals : ¬ Conceals s l (o.disable start l).1) :
    net (stretchZones s l start (o.stop start l)) = (openBraces (o.disable start l).2 : Int) - openBraces p ∧
      (markState s l start ≠ .code → net (stretchZones s l start (o.stop start l)) = 0) := by
  have hbrace : ∀ b ∈ stretchZones s l start (o.stop start l), b.1 = '{' ∨ b.1 = '}' →
      b.2 = .code ∧ markState s l start = .code := by
    intro b hb hbrace
    by_contra hnot
    exact hconceals ⟨p, o, start, h, rfl, b, hb, hbrace, not_and_or.1 hnot⟩
  constructor
  · rw [net_eq_allIn fun b hb hbr => (hbrace b hb hbr).1, map_fst_stretchZones, (o.disable_parts h.le).2.2.2,
      h.openBraces_eq]
  · intro hmark
    apply net_eq_zero
    intro b hb _
    exact not_or.1 fun hbr => hmark (hbrace b hb hbr).2

/-- **A statement that has its line to itself** is put behind a line comment mark. -/
theorem Opens.readable_alone (h : Opens p o start l) (hs : Begins s) (hline : '\n' ∉ l)
    (halone : ¬ Shared l start (o.stop start l)) (hbreaks : ¬ Breaks s l (o.disable start l).1) :
    Readable s p l (o.disable start l).1 (o.disable start l).2 := by
  have hblank := Decidable.not_not.1 halone
  obtain ⟨hsheltered, hends, hnet⟩ := reads_commentOut hs hline
  have hmade : (o.disable start l).1 = commentOut l := by rw [disable_line, disableSpan_eq, if_pos hblank]
  rw [← hmade] at hsheltered hends hnet
  refine ⟨hsheltered, ends_of_not_severed hs hends hbreaks, fun hconceals => ?_⟩
  obtain ⟨hstretch, hnone⟩ := h.net_stretch hconceals
  obtain ⟨hcut, hlength, -, -⟩ := o.disable_parts h.le
  obtain ⟨hfront, hback⟩ := Bool.and_eq_true_iff.1 hblank
  -- the line has no other braces
  have hold : net (lineZones s l) = net (stretchZones s l start (o.stop start l)) := by
    have hzones := lineZones_cut s (l.take start) (slice l start (o.stop start l)) (l.drop (o.stop start l))
    rw [hcut, List.length_take_of_le h.le, hlength] at hzones
    rw [hzones, net_append, net_append, net_blank hfront, net_blank hback, Int.zero_add, Int.add_zero]
  have hmark : markState s l start = s := (zoned_mild hs (mild_of_isBlankLine hfront)).2
  rw [hnet, hold]
  split
  · omega
  · next hcode =>
    rw [hmark] at hnone
    have hflat := hnone hcode
    omega

/-- **A statement that shares its line** gets a block comment around it. -/
theorem Opens.readable_shared (h : Opens p o start l) (hs : Begins s) (hline : '\n' ∉ l)
    (hshared : Shared l start (o.stop start l)) (hbreaks : ¬ Breaks s l (o.disable start l).1) :
    Readable s p l (o.disable start l).1 (o.disable start l).2 := by
  obtain ⟨hcut, hlength, hend, -⟩ := o.disable_parts h.le
  have hmade : (o.disable start l).1 =
      l.take start ++ (comment (quote l start (o.stop start l)) ++ l.drop (o.stop start l)) := by
    rw [disable_line, disableSpan_eq, if_neg hshared, List.append_assoc]
  have hfront : l.take start ++ slice l start (o.stop start l) = l.take (o.stop start l) := by
    rw [← List.append_left_inj (l.drop (o.stop start l)), List.append_assoc, hcut, List.take_append_drop]
  have hrest : slice l start (o.stop start l) ++ l.drop (o.stop start l) = l.drop start := by
    rw [← List.append_right_inj (l.take start), hcut, List.take_append_drop]
  have hopens : (∀ x ∈ l.take start, isSpaceOrTab x = true) ∨
      (slice l start (o.stop start l) ++ l.drop (o.stop start l)).head? = some '@' := by
    rw [hrest, List.head?_drop]
    exact h.front
  -- the line is not broken, so the mark opens a comment where it is put in, and the statement ends in code
  have hmark : markState s l start = .code ∨ markState s l start = .lineComment ∨
      markState s l start = .blockComment := by
    by_contra hnot
    simp only [not_or] at hnot
    exact hbreaks (.enclosed h hshared (not_or.2 ⟨hnot.1, hnot.2.2⟩) hnot.2.1)
  have hclose : markState s l start ≠ .lineComment → l.drop (o.stop start l) ≠ [] → State.after (some '\n') s
      (l.drop (o.stop start l)).head? (l.take start ++ slice l start (o.stop start l)) = .code := by
    intro hopen hbehind
    rw [hfront, List.head?_drop]
    by_contra hstop
    exact hbreaks (.torn h hshared hopen (by simpa using hbehind) hstop)
  -- behind the statement no address goes on, since the byte before it is its own
  have hcolon : (l.drop (o.stop start l)).head? = some '/' →
      (l.take start ++ slice l start (o.stop start l)).getLast? ≠ some ':' := by
    intro hslash hlast
    rcases hend with hnil | hbrace | hsemicolon | hbrace
    · rw [hnil] at hslash
      cases hslash
    · rw [hbrace] at hslash
      cases hslash
    · rw [List.getLast?_append, hsemicolon] at hlast
      cases hlast
    · rw [List.getLast?_append, hbrace] at hlast
      cases hlast
  obtain ⟨hsheltered, hends, hnet⟩ := reads_wrapped hs (by rwa [hcut]) (occurrences_quote l start (o.stop start l))
    (by simp [quote]) (quote_feed hline start _) (fun u hu => sheltered_quote hu) hopens hmark hclose hcolon
  rw [hcut, ← hmade] at hsheltered hends hnet
  rw [List.length_take_of_le h.le, hlength] at hnet
  refine ⟨hsheltered, ends_of_not_severed hs hends hbreaks, fun hconceals => ?_⟩
  rw [hnet, (h.net_stretch hconceals).1]
  omega

/-- **A line of which a statement is taken out of use can be read as before**, unless it is broken. -/
theorem Opens.readable (h : Opens p o start l) (hs : Begins s) (hline : '\n' ∉ l)
    (hbreaks : ¬ Breaks s l (o.disable start l).1) : Readable s p l (o.disable start l).1 (o.disable start l).2 := by
  by_cases hshared : Shared l start (o.stop start l)
  · exact h.readable_shared hs hline hshared hbreaks
  · exact h.readable_alone hs hline hshared hbreaks

/-! ## A line that is treated -/

theorem readable_commentOut (hs : Begins s) (hline : '\n' ∉ l) (flat : '{' ∉ l ∧ '}' ∉ l)
    (hbreaks : ¬ Breaks s l (commentOut l)) : Readable s none l (commentOut l) none := by
  obtain ⟨hsheltered, hends, hnet⟩ := reads_commentOut hs hline
  refine ⟨hsheltered, ends_of_not_severed hs hends hbreaks, fun _ => ?_⟩
  have hnone : net (lineZones s l) = 0 := net_zoned flat
  rw [hnet, hnone, ite_self]

/-- **A line that a repair treats can be read as before**, unless it is broken. -/
theorem Treated.readable (h : Treated p l l' q) (hs : Begins s) (hline : '\n' ∉ l) (hbreaks : ¬ Breaks s l l') :
    Readable s p l l' q := by
  cases h with
  | same => exact ⟨.refl _, rfl, fun _ => rfl⟩
  | balanced => exact readable_of_retouched (retouched_balanceParens hline fun h => hbreaks (.joined h)) hs
  | ended => exact readable_of_retouched (retouched_ended hline) hs
  | collapsed => exact readable_of_retouched (retouched_collapseSemicolons [] l) hs
  | converted => exact readable_of_retouched (retouched_convertReferences l) hs
  | replaced name => exact readable_of_retouched (retouched_replaceVariable fun h => hbreaks (.abuts h)) hs
  | commented _ flat => exact readable_commentOut hs hline flat hbreaks
  | disabled opens => exact opens.readable hs hline hbreaks

/-! ## The lines of a file -/

/-- **On one of the lines** a repair does what `R` says, which sees the state in which the line begins. -/
def Somewhere (R : State → Text → Text → Prop) (s : State) (ls ls' : List Text) : Prop :=
  ∃ n l l', ls[n]? = some l ∧ ls'[n]? = some l' ∧ R (entry s (ls.take n)) l l'

theorem Somewhere.here (h : R s l l') : Somewhere R s (l :: ls) (l' :: ls') := ⟨0, l, l', rfl, rfl, h⟩

theorem Somewhere.behind (h : Somewhere R (lineEnd s l) ls ls') : Somewhere R s (l :: ls) (l' :: ls') := by
  obtain ⟨n, m, m', hm, hm', hR⟩ := h
  exact ⟨n + 1, m, m', hm, hm', hR⟩

theorem Somewhere.mono {R' : State → Text → Text → Prop} (h : Somewhere R s ls ls')
    (hR : ∀ s l l', R s l l' → R' s l l') : Somewhere R' s ls ls' := by
  obtain ⟨n, l, l', hl, hl', hhere⟩ := h
  exact ⟨n, l, l', hl, hl', hR _ l l' hhere⟩

/-- A repair keeps the number of lines. -/
theorem Goes.eq_nil_iff (h : Goes p ls ls' q) : ls' = [] ↔ ls = [] := by
  cases h <;> simp

/-- **Lines that a repair goes through can be read as before**, unless one is broken. -/
theorem Goes.readable (h : Goes p ls ls' q) (hs : Begins s) (hlines : ∀ l ∈ ls, '\n' ∉ l)
    (hbreaks : ¬ Somewhere Breaks s ls ls') : Sheltered (zonesOfLines s ls) (zonesOfLines s ls') ∧
      (¬ Somewhere Conceals s ls ls' →
        net (zonesOfLines s ls) + openBraces p = net (zonesOfLines s ls') + openBraces q) := by
  induction h generalizing s with
  | nil p => exact ⟨.nil, fun _ => rfl⟩
  | @cons p q r l l' ls ls' here rest ih =>
    -- the line itself, and then those behind it, which begin in the state in which it ends
    have hline := here.readable hs (hlines l List.mem_cons_self) fun h => hbreaks (.here h)
    by_cases hlast : ls = []
    · obtain rfl := rest.eq_nil_iff.2 hlast
      subst hlast
      cases rest
      exact ⟨hline.sheltered, fun hconceals => hline.counts fun h => hconceals (.here h)⟩
    · have hbehind := ih (hs.lineEnd l) (fun m hm => hlines m (List.mem_cons_of_mem l hm)) fun h => hbreaks h.behind
      obtain ⟨hsheltered, hcounts⟩ := hbehind
      rw [zonesOfLines_cons s l hlast, zonesOfLines_cons s l' (mt rest.eq_nil_iff.1 hlast), hline.ends]
      refine ⟨hline.sheltered.append (.kept id hsheltered), fun hconceals => ?_⟩
      have hfirst := hline.counts fun h => hconceals (.here h)
      have hothers := hcounts fun h => hconceals h.behind
      have hfeed : ∀ u, net (('\n', Zone.code) :: u) = net u := by
        intro u
        rw [net_cons, net_of_ne fun _ => by decide, Int.zero_add]
      rw [net_append, net_append, hfeed, hfeed]
      omega

/-! ## Files -/

/-- **Repairs keep comments.** After every repair of a file the bytes of its comments are in a comment still, but for
blanks, parentheses, semicolons and dollar signs that are left out; or one of its lines is broken. -/
theorem comments_sheltered (call : RepairCall) {files : List Candidate} {i : Nat} {c c' : Candidate}
    (hlines : ∀ l ∈ c.lines, '\n' ∉ l) (hc : files[i]? = some c) (hc' : (call.answer files).1[i]? = some c') :
    Sheltered (zones c.content) (zones c'.content) ∨ ∃ n l l', c.lines[n]? = some l ∧ c'.lines[n]? = some l' ∧
      Breaks (State.after none .code none (ended (c.lines.take n))) l l' := by
  rcases call.mends hc hc' with rfl | ⟨q, hgoes⟩
  · left
    obtain ⟨w, hw, hinert⟩ := c.content_closed
    rw [Candidate.closeBlocks_eq, hw]
    exact .of_zones_append c.content hinert
  · by_cases hbreaks : Somewhere Breaks .code c.lines c'.lines
    · right
      obtain ⟨n, l, l', hl, hl', hbreak⟩ := hbreaks
      rw [entry_eq] at hbreak
      exact ⟨n, l, l', hl, hl', hbreak⟩
    · left
      rw [Candidate.content, Candidate.content, zones_unlines, zones_unlines]
      exact (hgoes.readable (.inl rfl) hlines hbreaks).1

/-- A file with a mixin call before a comment on its line, and one in a comment that it begins. -/
def noted : Candidate :=
  ⟨"a.scss".toList, "a.scss".toList, "a.css".toList, [],
    [".a \x7b @include x; /* was: b */ \x7d".toList, "/* @include y".toList, "   was: c */".toList], false⟩

/-- The file after the aggressive repair. -/
def notedRepaired : Candidate :=
  { noted with
    lines := [".a \x7b /* @include x; */ /* was: b */ \x7d".toList, "/* @include y".toList, "   was: c */".toList],
    dirty := true }

theorem noted_sheltered :
    ((∀ l ∈ noted.lines, '\n' ∉ l) ∧ [noted][0]? = some noted ∧
      (RepairCall.aggressive.answer [noted]).1[0]? = some notedRepaired) ∧
    (Sheltered (zones noted.content) (zones notedRepaired.content) ∨ ∃ n l l', noted.lines[n]? = some l ∧
      notedRepaired.lines[n]? = some l' ∧ Breaks (State.after none .code none (ended (noted.lines.take n))) l l') := by
  have hlines : ∀ l ∈ noted.lines, '\n' ∉ l := by decide
  have hrepaired : (RepairCall.aggressive.answer [noted]).1[0]? = some notedRepaired := by decide +kernel
  exact ⟨⟨hlines, rfl, hrepaired⟩, comments_sheltered .aggressive hlines rfl hrepaired⟩

/-- A file whose first lines are a comment, with a mixin call in the middle. -/
def instructed : Candidate :=
  ⟨"a.scss".toList, "a.scss".toList, "a.css".toList, [],
    ["/* how to use:".toList, "   call @include foo; in a rule".toList, "   old notes */".toList,
      ".a \x7b b: c; \x7d".toList, []], false⟩

/-- The file after the aggressive repair. -/
def instructedRepaired : Candidate :=
  { instructed with
    lines := ["/* how to use:".toList, "   call /* @include foo; */ in a rule".toList, "   old notes */".toList,
      ".a \x7b b: c; \x7d".toList, []],
    dirty := true }

/-- **A comment that is put into a comment ends it early**: what stood in the comment behind the call is code. -/
theorem nested_mark_ends_comment :
    (RepairCall.aggressive.answer [instructed]).1 = [instructedRepaired] ∧
    (zones instructed.content)[37]? = some ('i', .comment) ∧
    (zones instructedRepaired.content)[43]? = some ('i', .code) ∧
    ¬ Sheltered (zones instructed.content) (zones instructedRepaired.content) := by
  refine ⟨by decide +kernel, by decide +kernel, by decide +kernel, fun h => ?_⟩
  have hcount : (zones instructedRepaired.content).count ('u', .comment) <
      (zones instructed.content).count ('u', .comment) := by
    decide +kernel
  exact Nat.not_le.2 hcount (h.count_le (by decide))

end Flatsheet.Repair
