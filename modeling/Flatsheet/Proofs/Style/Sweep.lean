import Flatsheet.Proofs.Check.Splice
import Flatsheet.Style.AssetPath
import Flatsheet.Style.Expansion
import Flatsheet.Style.ColorHelper
import Flatsheet.Style.Import
import Flatsheet.Style.Declaration

/-!
# `Proofs.Style.Sweep` — what scanners find lies apart

A scanner goes through a mask with a cursor. Wherever the cursor stands, what is to come is the rest of the
mask (`Cursor.At`), and each move keeps that. So the stretches that a sweep reports lie inside the mask, one
after the other (`sweep_apart`), and each of them begins at a byte that the scanner has looked at.

There is one lemma for each scanner that says where its findings begin and end.
-/

namespace Flatsheet

open Text Style Check Mask

variable {α : Type} {code t w : Text} {c start stop : Cursor} {look : Cursor → Sighting α} {span : α → Span}
  {a : α} {n pos wait : Nat}

/-! ## Cursors -/

/-- **The cursor stands in the mask.** -/
structure Cursor.At (c : Cursor) (code : Text) : Prop where
  inside : c.pos ≤ code.length
  rest : c.rest = code.drop c.pos

namespace Cursor

theorem pos_advance (c : Cursor) (n : Nat) : (c.advance n).pos = c.pos + min n c.rest.length := by
  show c.pos + (c.rest.take n).length = _
  rw [List.length_take]

theorem le_pos_advance (c : Cursor) (n : Nat) : c.pos ≤ (c.advance n).pos := by
  rw [pos_advance]
  omega

theorem le_pos_skip (p : Char → Bool) (c : Cursor) : c.pos ≤ (c.skip p).pos := le_pos_advance c _

theorem rest_skip (c : Cursor) (p : Char → Bool) : (c.skip p).rest = c.rest.dropWhile p :=
  calc c.rest.drop (c.rest.takeWhile p).length
      = (c.rest.takeWhile p ++ c.rest.dropWhile p).drop (c.rest.takeWhile p).length := by
        rw [List.takeWhile_append_dropWhile]
    _ = c.rest.dropWhile p := List.drop_left

theorem At.length_rest (h : c.At code) : c.pos + c.rest.length = code.length := by
  have hinside := h.inside
  rw [h.rest, List.length_drop]
  omega

theorem At.advance (h : c.At code) (n : Nat) : (c.advance n).At code := by
  have hlength := h.length_rest
  refine ⟨?_, ?_⟩
  · rw [pos_advance]
    omega
  · rw [pos_advance]
    show c.rest.drop n = _
    by_cases hn : n ≤ c.rest.length
    · rw [Nat.min_eq_left hn, h.rest, List.drop_drop]
    · have hall : c.rest.length ≤ n := Nat.le_of_not_le hn
      rw [Nat.min_eq_right hall, hlength, List.drop_length, List.drop_of_length_le hall]

theorem At.skip (h : c.At code) (p : Char → Bool) : (c.skip p).At code := h.advance _

theorem At.getElem?_rest (h : c.At code) (n : Nat) : c.rest[n]? = code[c.pos + n]? := by
  rw [h.rest, List.getElem?_drop]

theorem At.byte? (h : c.At code) : c.byte? = code[c.pos]? := by
  show c.rest.head? = _
  rw [List.head?_eq_getElem?, h.getElem?_rest, Nat.add_zero]

/-- A cursor before a word: behind the word it stands further on. -/
theorem At.word {x : Char} (h : c.At code) (hword : startsWith c.rest (x :: w) = true) :
    code[c.pos]? = some x ∧ (c.advance (x :: w).length).pos = c.pos + (x :: w).length := by
  obtain ⟨r, hr⟩ := List.isPrefixOf_iff_prefix.1 hword
  constructor
  · rw [← h.byte?]
    show c.rest.head? = _
    rw [← hr]
    rfl
  · rw [pos_advance, ← hr, List.length_append, Nat.min_eq_left (Nat.le_add_right _ _)]

end Cursor

theorem getElem?_of_closingOffset {opener closer : Char} {d : Int}
    (h : closingOffset? opener closer d w = some n) : w[n]? = some closer := by
  induction w generalizing d n with
  | nil => cases h
  | cons x r ih =>
    rw [closingOffset?] at h
    split at h
    · obtain ⟨m, hm, rfl⟩ := Option.map_eq_some_iff.1 h
      exact ih hm
    · split at h
      · next hcloser =>
        split at h
        · cases h
          rw [hcloser]
          rfl
        · obtain ⟨m, hm, rfl⟩ := Option.map_eq_some_iff.1 h
          exact ih hm
      · obtain ⟨m, hm, rfl⟩ := Option.map_eq_some_iff.1 h
        exact ih hm

/-- **After a group stands the cursor behind its closing delimiter.** -/
theorem Cursor.At.group {opener closer : Char} (h : start.At code)
    (hgroup : start.group? opener closer = some stop) :
    stop.At code ∧ start.pos < stop.pos ∧ byteBefore code stop.pos = some closer := by
  obtain ⟨n, hn, rfl⟩ := Option.map_eq_some_iff.1 hgroup
  have hcloser : start.rest[n]? = some closer := getElem?_of_closingOffset hn
  obtain ⟨hlt, -⟩ := List.getElem?_eq_some_iff.1 hcloser
  have hpos : (start.advance (n + 1)).pos = start.pos + n + 1 := by
    rw [pos_advance, Nat.min_eq_left hlt, Nat.add_assoc]
  refine ⟨h.advance (n + 1), ?_, ?_⟩
  · omega
  · rw [hpos]
    show code[start.pos + n]? = _
    rw [← h.getElem?_rest, hcloser]

/-! ## Sweeps -/

/-- **What the scanner finds has its stretch in the mask**: it begins where the scanner looks, and the search
goes on behind it. -/
def Spans (look : Cursor → Sighting α) (code : Text) (span : α → Span) : Prop :=
  ∀ c a n, c.At code → look c = .found a n →
    (span a).start = c.pos ∧ (span a).stop = c.pos + n ∧ 0 < n ∧ c.pos + n ≤ code.length

/-- A walk along a text stands at the next byte of it after each byte. -/
theorem drop_of_cons {x : Char} (hw : code.drop pos = x :: r) :
    code.drop (pos + 1) = r ∧ pos + 1 ≤ code.length := by
  have hlength := congrArg List.length hw
  rw [List.length_drop, List.length_cons] at hlength
  refine ⟨?_, by omega⟩
  rw [← List.drop_drop, hw]
  rfl

/-- Each thing found has been seen at a place further on. -/
theorem mem_sweepFrom {seen : Text} (hpos : pos ≤ code.length)
    (h : a ∈ sweepFrom look seen pos wait (code.drop pos)) :
    ∃ c n, c.At code ∧ pos + wait ≤ c.pos ∧ look c = .found a n := by
  generalize hw : code.drop pos = w at h
  induction w generalizing seen pos wait with
  | nil => cases h
  | cons x r ih =>
    obtain ⟨hr, hnext⟩ := drop_of_cons hw
    rw [sweepFrom] at h
    split at h
    · next hwait =>
      obtain ⟨c, n, hc, hle, hlook⟩ := ih hnext hr h
      exact ⟨c, n, hc, by omega, hlook⟩
    · split at h
      · obtain ⟨c, n, hc, hle, hlook⟩ := ih hnext hr h
        exact ⟨c, n, hc, by omega, hlook⟩
      · cases h
      · next b n hlook =>
        rcases List.mem_cons.1 h with rfl | h
        · exact ⟨_, n, ⟨hpos, hw.symm⟩, by simp only; omega, hlook⟩
        · obtain ⟨c, m, hc, hle, hlook'⟩ := ih hnext hr h
          exact ⟨c, m, hc, by omega, hlook'⟩

theorem mem_sweep (h : a ∈ sweep look code) : ∃ c n, c.At code ∧ look c = .found a n := by
  obtain ⟨c, n, hc, -, hlook⟩ := mem_sweepFrom (Nat.zero_le _) h
  exact ⟨c, n, hc, hlook⟩

theorem sweepFrom_pairwise {seen : Text} (hspan : Spans look code span) (hpos : pos ≤ code.length) :
    (sweepFrom look seen pos wait (code.drop pos)).Pairwise fun a b => (span a).stop ≤ (span b).start := by
  generalize hw : code.drop pos = w
  induction w generalizing seen pos wait with
  | nil => exact .nil
  | cons x r ih =>
    obtain ⟨hr, hnext⟩ := drop_of_cons hw
    rw [sweepFrom]
    split
    · exact ih hnext hr
    · split
      · exact ih hnext hr
      · exact .nil
      · next a n hlook =>
        refine List.pairwise_cons.2 ⟨?_, ih hnext hr⟩
        intro b hb
        rw [← hr] at hb
        obtain ⟨c, m, hc, hle, hlook'⟩ := mem_sweepFrom hnext hb
        obtain ⟨-, hstop, hn, -⟩ := hspan _ a n ⟨hpos, hw.symm⟩ hlook
        obtain ⟨hstart, -, -, -⟩ := hspan c b m hc hlook'
        simp only at hstop
        omega

/-- **The stretches that a sweep reports lie apart.** -/
theorem sweep_apart (hspan : Spans look code span) : Apart code ((sweep look code).map span) := by
  refine ⟨List.pairwise_map.2 (sweepFrom_pairwise hspan (Nat.zero_le _)), ?_⟩
  intro s hs
  obtain ⟨a, ha, rfl⟩ := List.mem_map.1 hs
  obtain ⟨c, n, hc, hlook⟩ := mem_sweep ha
  obtain ⟨hstart, hstop, hn, hlength⟩ := hspan c a n hc hlook
  omega

/-! ## The scanners -/

/-- A byte before which a text can be cut, when it stands in a code mask. -/
def Leads (x : Char) : Prop := isBlank x = false ∧ (x ≠ '"' ∧ x ≠ '\'') ∧ (x ≠ '/' ∧ x ≠ '{')

instance (x : Char) : Decidable (Leads x) := inferInstanceAs (Decidable (_ ∧ _ ∧ _))

theorem Cursor.At.leads {x : Char} (h : c.At code) (hword : startsWith c.rest (x :: w) = true)
    (hx : Leads x) : ∃ x, code[c.pos]? = some x ∧ Leads x :=
  ⟨x, (h.word hword).1, hx⟩

/-- A text can be cut where a scanner of its code mask begins to see something. -/
theorem joins_of_leads {x : Char} (h : (codeMask t)[pos]? = some x) (hx : Leads x) :
    Joins (t.take pos) (t.drop pos).head? := by
  have hspace : x ≠ ' ' := by
    rintro rfl
    cases hx.1
  have hbyte : t[pos]? = some x := getElem?_of_run h hspace
  rw [List.head?_drop, hbyte]
  exact joins_of_masked h hx.1 hx.2.1 hx.2.2

/-- A call of a colour function reaches from its name to its closing parenthesis. -/
theorem HelperCall.look_found {call : HelperCall} (h : c.At code)
    (hlook : HelperCall.look t c = .found call n) :
    (call.span.start = c.pos ∧ call.span.stop = c.pos + n ∧ 0 < n ∧ c.pos + n ≤ code.length) ∧
      ∃ x, code[c.pos]? = some x ∧ Leads x := by
  -- the names of all colour functions begin with a letter
  have hnames : ∀ name ∈ colorHelpers, ∃ x w, name = x :: w ∧ Leads x := by
    intro name hname
    have hall : ∀ name ∈ colorHelpers, (name.head?.any fun x => Leads x) = true := by decide
    obtain ⟨x, hx, hlead⟩ := (Option.any_eq_true _ _).1 (hall name hname)
    obtain ⟨w, hw⟩ := List.head?_eq_some_iff.1 hx
    exact ⟨x, w, hw, of_decide_eq_true hlead⟩
  unfold HelperCall.look at hlook
  split at hlook
  · cases hlook
  · next name hname =>
    dsimp only at hlook
    split at hlook
    · cases hlook
    · split at hlook
      · cases hlook
      · next stop hgroup =>
        cases hlook
        have hstart : ((c.advance name.length).skip isSpaceOrTab).At code := (h.advance _).skip _
        obtain ⟨hstop, hlt, -⟩ := hstart.group hgroup
        have hle : c.pos ≤ ((c.advance name.length).skip isSpaceOrTab).pos :=
          Nat.le_trans (Cursor.le_pos_advance _ _) (Cursor.le_pos_skip _ _)
        have hinside := hstop.inside
        refine ⟨⟨rfl, ?_, ?_, ?_⟩, ?_⟩
        · show stop.pos = _
          omega
        · omega
        · omega
        · obtain ⟨x, w, rfl, hx⟩ := hnames name (List.mem_of_find?_eq_some hname)
          have hword := List.find?_some hname
          simp only [wordHere, Bool.and_eq_true] at hword
          exact h.leads hword.1.1 hx

/-- What is found in a group that may stand at a place is in the text from there to the place behind it. -/
theorem group_found {opener closer : Char} {here after : Cursor} {inner : Option Text} (h : here.At code)
    (hgroup : (if (here.skip isBlank).byte? = some opener then
        ((here.skip isBlank).group? opener closer).map fun stop =>
          (some (groupInside t (here.skip isBlank) stop), stop)
      else some (none, here)) = some (inner, after)) :
    after.At code ∧ here.pos ≤ after.pos ∧ inner.getD [] <:+: slice t here.pos after.pos := by
  split at hgroup
  · obtain ⟨stop, hstop, heq⟩ := Option.map_eq_some_iff.1 hgroup
    cases heq
    obtain ⟨hat, hlt, -⟩ := (h.skip isBlank).group hstop
    have hskip := Cursor.le_pos_skip isBlank here
    exact ⟨hat, by omega, slice_of_larger (by omega) (Nat.sub_le _ 1) t⟩
  · cases hgroup
    exact ⟨h, Nat.le_refl _, List.nil_infix⟩

/-- **The parts of an include**: the keyword, the name, the arguments, the block, and what ends it, one after the
other. -/
theorem Include.look_parts {i : Include} (h : c.At code) (hlook : Include.look t c = .found i n) :
    ∃ (name nameEnd argumentsEnd blockEnd : Nat) (arguments block : Option Text),
      startsWith c.rest "@include".toList = true ∧ i.span = ⟨c.pos, c.pos + n⟩ ∧
      (c.pos + 8 ≤ name ∧ name ≤ nameEnd ∧ nameEnd ≤ argumentsEnd ∧ argumentsEnd ≤ blockEnd ∧
        blockEnd ≤ c.pos + n ∧ c.pos + n ≤ code.length) ∧
      arguments.getD [] <:+: slice t nameEnd argumentsEnd ∧ block.getD [] <:+: slice t argumentsEnd blockEnd ∧
      i.call = ⟨slice t name nameEnd, (arguments.map (splitTopLevel ',')).getD [], block.map trim,
        lineNumberAt t c.pos⟩ := by
  unfold Include.look at hlook
  dsimp only at hlook
  split at hlook
  · cases hlook
  · next hword =>
    split at hlook
    · cases hlook
    · next hname =>
      have hat : (((c.advance 8).skip isBlank).skip fun b => isIdent b || b = '.').At code :=
        ((h.advance _).skip _).skip _
      split at hlook
      · cases hlook
      · next arguments afterArguments harguments =>
        obtain ⟨harg, hle, harguments⟩ := group_found hat harguments
        split at hlook
        · cases hlook
        · next block afterBlock hblock =>
          obtain ⟨hend, hle', hblock⟩ := group_found harg hblock
          have hstart : startsWith c.rest "@include".toList = true := by
            simp only [Bool.or_eq_true, not_or, Bool.not_eq_true] at hword
            simpa using hword.1
          have hpos : (c.advance 8).pos = c.pos + 8 := (h.word hstart).2
          have hblank := Cursor.le_pos_skip isBlank (c.advance 8)
          have hident := Cursor.le_pos_skip (fun b => isIdent b || b = '.') ((c.advance 8).skip isBlank)
          -- a semicolon behind the block belongs to the include
          have hstop : ∀ {stop : Nat}, (if (afterBlock.skip isBlank).byte? = some ';'
              then (afterBlock.skip isBlank).pos + 1 else afterBlock.pos) = stop →
              afterBlock.pos ≤ stop ∧ stop ≤ code.length := by
            intro stop hstop
            have hinside := hend.inside
            split at hstop
            · next hsemicolon =>
              have hskip := Cursor.le_pos_skip isBlank afterBlock
              rw [(hend.skip isBlank).byte?] at hsemicolon
              obtain ⟨hlt, -⟩ := List.getElem?_eq_some_iff.1 hsemicolon
              omega
            · omega
          cases hlook
          obtain ⟨hbehind, hlength⟩ := hstop rfl
          refine ⟨_, _, _, _, arguments, block, hstart, ?_, ⟨?_, hident, hle, hle', ?_, ?_⟩, harguments, hblock, rfl⟩
          · rw [Nat.add_sub_cancel']
            omega
          · omega
          · omega
          · omega

/-- An include reaches from its at sign to its semicolon, block, arguments or name, whichever is last. -/
theorem Include.look_found {i : Include} (h : c.At code) (hlook : Include.look t c = .found i n) :
    (i.span.start = c.pos ∧ i.span.stop = c.pos + n ∧ 0 < n ∧ c.pos + n ≤ code.length) ∧
      ∃ x, code[c.pos]? = some x ∧ Leads x := by
  obtain ⟨name, nameEnd, argumentsEnd, blockEnd, arguments, block, hword, hspan, hplaces, -⟩ :=
    Include.look_parts h hlook
  have hat : code[c.pos]? = some '@' := (h.word hword).1
  rw [hspan]
  exact ⟨⟨rfl, rfl, by omega, hplaces.2.2.2.2.2⟩, '@', hat, by decide⟩

/-- A mixin definition reaches from its at sign to the brace that closes its body. -/
theorem MixinDefinition.look_found {m : MixinDefinition} (h : c.At code)
    (hlook : MixinDefinition.look t c = .found m n) :
    (m.span.start = c.pos ∧ m.span.stop = c.pos + n ∧ 0 < n ∧ c.pos + n ≤ code.length) ∧
      byteBefore code m.span.stop = some '}' := by
  unfold MixinDefinition.look at hlook
  dsimp only at hlook
  split at hlook
  · cases hlook
  · split at hlook
    · cases hlook
    · split at hlook
      · cases hlook
      · next body hbody =>
        have hnext : ((((c.advance 6).skip isBlank).skip isIdent).skip isBlank).At code :=
          (((h.advance _).skip _).skip _).skip _
        have hle : c.pos ≤ ((((c.advance 6).skip isBlank).skip isIdent).skip isBlank).pos :=
          Nat.le_trans (Cursor.le_pos_advance c 6) (Nat.le_trans (Cursor.le_pos_skip _ _)
            (Nat.le_trans (Cursor.le_pos_skip _ _) (Cursor.le_pos_skip _ _)))
        -- the body begins behind the parameters, if there are any
        have hat : body.At code ∧ c.pos ≤ body.pos := by
          split at hbody
          · obtain ⟨stop, hstop, rfl⟩ := Option.map_eq_some_iff.1 hbody
            obtain ⟨hstopAt, hlt, -⟩ := hnext.group hstop
            have hskip := Cursor.le_pos_skip isBlank stop
            exact ⟨hstopAt.skip _, by omega⟩
          · cases hbody
            exact ⟨hnext, hle⟩
        split at hlook
        · cases hlook
        · split at hlook
          · cases hlook
          · next stop hgroup =>
            cases hlook
            obtain ⟨hstop, hlt, hbrace⟩ := hat.1.group hgroup
            have hinside := hstop.inside
            refine ⟨⟨rfl, ?_, ?_, ?_⟩, hbrace⟩
            · show stop.pos = _
              omega
            · omega
            · omega

theorem importLength_spec {parens : Nat} {last : Option Char} {terminated : Bool}
    (h : importLength parens last w = (n, terminated)) :
    n ≤ w.length ∧ (terminated = true → w[n]? = some ';') := by
  induction w generalizing parens last n terminated with
  | nil =>
    cases h
    exact ⟨Nat.le_refl _, nofun⟩
  | cons x r ih =>
    -- the scan ends further on, or at this byte
    have hfurther : ∀ {p m : Nat} {l : Option Char} {b : Bool},
        ((importLength p l r).1 + 1, (importLength p l r).2) = (m, b) →
        m ≤ (x :: r).length ∧ (b = true → (x :: r)[m]? = some ';') := by
      intro p m l b hstep
      cases hstep
      obtain ⟨hle, hterminated⟩ := ih (Prod.eta (importLength p l r)).symm
      exact ⟨Nat.succ_le_succ hle, hterminated⟩
    have hhere : ∀ {m : Nat} {b : Bool}, (0, b) = (m, terminated) → (b = true → x = ';') →
        m ≤ (x :: r).length ∧ (terminated = true → (x :: r)[m]? = some ';') := by
      intro m b hstep hx
      cases hstep
      refine ⟨Nat.zero_le _, ?_⟩
      intro hterminated
      rw [hx hterminated]
      rfl
    rw [importLength] at h
    dsimp only at h
    split at h
    · exact hfurther h
    · split at h
      · exact hfurther h
      · split at h
        · exact hfurther h
        · split at h
          · next hx => exact hhere h fun _ => hx
          · split at h
            · exact hhere h nofun
            · split at h
              · exact hhere h nofun
              · exact hfurther h

/-- What is left of a text that is trimmed at the right is empty or ends in a byte that is not blank. -/
theorem getElem?_trimRight {k l : Nat} (h : (trimRight (w.take k)).length = l + 1) :
    ∃ x, w[l]? = some x ∧ isBlank x = false := by
  obtain ⟨blanks, hcut, -⟩ := eq_trimRight_append (w.take k)
  rcases List.eq_nil_or_concat (trimRight (w.take k)) with hnil | ⟨front, x, hconcat⟩
  · rw [hnil] at h
    cases h
  · rw [List.concat_eq_append] at hconcat
    rw [hconcat, List.length_append] at h
    have hlength : front.length = l := Nat.succ.inj h
    refine ⟨x, ?_, not_blank_of_trimRight hconcat⟩
    have hw : w = (front ++ [x]) ++ blanks ++ w.drop k := by
      rw [← hconcat, ← hcut, List.take_append_drop]
    rw [hw, ← hlength]
    simp

/-- **The parts of an import statement**: the keyword, and what the scan of the code behind it has come to. -/
theorem Import.look_parts {i : Import} (h : c.At code) (hlook : Import.look t c = .found i n) : ∃ k terminated,
    "@import".toList <+: code.drop c.pos ∧ importLength 0 none (code.drop (c.pos + 7)) = (k, terminated) ∧
      i.span = ⟨c.pos, c.pos + n⟩ ∧
      n = 7 + if terminated then k + 1 else (trimRight ((code.drop (c.pos + 7)).take k)).length := by
  unfold Import.look at hlook
  dsimp only at hlook
  split at hlook
  · cases hlook
  · next hword =>
    have hword' : startsWith c.rest "@import".toList = true := by
      simp only [Bool.or_eq_true, not_or, Bool.not_eq_true] at hword
      simpa using hword.1
    have hpos : (c.advance 7).pos = c.pos + 7 := (h.word hword').2
    have hkeyword : "@import".toList <+: code.drop c.pos := by
      rw [← h.rest]
      exact List.isPrefixOf_iff_prefix.1 hword'
    have hrest : (c.advance 7).rest = code.drop (c.pos + 7) := hpos ▸ (h.advance 7).rest
    obtain ⟨k, terminated, hlength⟩ : ∃ k terminated,
        importLength 0 none (code.drop (c.pos + 7)) = (k, terminated) := ⟨_, _, rfl⟩
    rw [hrest, hpos, hlength] at hlook
    cases hlook
    refine ⟨k, terminated, hkeyword, hlength, ?_, ?_⟩
    · rw [Nat.add_sub_cancel']
      omega
    · cases terminated with
      | true =>
        simp only [if_true]
        omega
      | false =>
        simp only [Bool.false_eq_true, if_false]
        omega

/-- An import statement reaches from its at sign to its semicolon, or to a byte that is not blank. -/
theorem Import.look_found {i : Import} (h : c.At code) (hlook : Import.look t c = .found i n) :
    (i.span.start = c.pos ∧ i.span.stop = c.pos + n ∧ 0 < n ∧ c.pos + n ≤ code.length) ∧
      ∃ x, byteBefore code i.span.stop = some x ∧ isBlank x = false := by
  obtain ⟨k, terminated, ⟨r, hr⟩, hlength, hspan, rfl⟩ := Import.look_parts h hlook
  obtain ⟨hk, hsemicolon⟩ := importLength_spec hlength
  have hkeyword : code[c.pos + 6]? = some 't' := by
    rw [← List.getElem?_drop, ← hr]
    rfl
  obtain ⟨hlt, -⟩ := List.getElem?_eq_some_iff.1 hkeyword
  rw [List.length_drop] at hk
  rw [hspan]
  cases terminated with
  | true =>
    have hlast : code[c.pos + (7 + k)]? = some ';' := by
      rw [← Nat.add_assoc, ← List.getElem?_drop, hsemicolon rfl]
    obtain ⟨hend, -⟩ := List.getElem?_eq_some_iff.1 hlast
    simp only [if_true]
    exact ⟨⟨trivial, trivial, by omega, by omega⟩, ';', hlast, rfl⟩
  | false =>
    have htrim := length_trimRight_le ((code.drop (c.pos + 7)).take k)
    rw [List.length_take, List.length_drop] at htrim
    simp only [Bool.false_eq_true, if_false]
    refine ⟨⟨trivial, trivial, by omega, by omega⟩, ?_⟩
    cases hl : (trimRight ((code.drop (c.pos + 7)).take k)).length with
    | zero => exact ⟨'t', hkeyword, rfl⟩
    | succ l =>
      obtain ⟨x, hx, hblank⟩ := getElem?_trimRight hl
      rw [List.getElem?_drop, Nat.add_assoc] at hx
      exact ⟨x, hx, hblank⟩

/-- **The import statements of a text lie apart**, and each ends in a byte that is not blank. -/
theorem Import.find_apart (t : Text) : Apart (codeMask t) ((Import.find t).map (·.span)) ∧
    ∀ i ∈ Import.find t, ∃ x, byteBefore (codeMask t) i.span.stop = some x ∧ isBlank x = false := by
  have hspans : Spans (Import.look t) (codeMask t) (·.span) :=
    fun c i n hc hlook => (Import.look_found hc hlook).1
  refine ⟨sweep_apart hspans, ?_⟩
  intro i hi
  obtain ⟨c, n, hc, hlook⟩ := mem_sweep hi
  exact (Import.look_found hc hlook).2

/-- **So do its mixin definitions**, each of which ends in a brace. -/
theorem MixinDefinition.find_apart (t : Text) : Apart (codeMask t) ((MixinDefinition.find t).map (·.span)) ∧
    ∀ m ∈ MixinDefinition.find t, byteBefore (codeMask t) m.span.stop = some '}' := by
  have hspans : Spans (MixinDefinition.look t) (codeMask t) (·.span) :=
    fun c m n hc hlook => (MixinDefinition.look_found hc hlook).1
  refine ⟨sweep_apart hspans, ?_⟩
  intro m hm
  obtain ⟨c, n, hc, hlook⟩ := mem_sweep hm
  exact (MixinDefinition.look_found hc hlook).2

/-- An asset address reaches from its name to its closing parenthesis. -/
theorem AssetHosts.look_found {hosts : AssetHosts} {found : Span × Option Text}
    (hlook : hosts.look t code c = .found found n) :
    found.1.start = c.pos ∧ found.1.stop = c.pos + n ∧ 0 < n ∧ c.pos + n ≤ code.length := by
  unfold AssetHosts.look at hlook
  split at hlook
  · cases hlook
  · split at hlook
    · cases hlook
    · next k hk =>
      cases hlook
      have hcloser := getElem?_of_closingOffset hk
      rw [List.getElem?_drop] at hcloser
      obtain ⟨hlt, -⟩ := List.getElem?_eq_some_iff.1 hcloser
      refine ⟨rfl, ?_, ?_, ?_⟩
      · show c.pos + 3 + k + 1 = c.pos + (3 + k + 1)
        omega
      · omega
      · omega

/-! ## Declarations -/

theorem valueLength?_spec {parens : Int} {braces : Nat} {hash : Bool}
    (h : valueLength? parens braces hash w = some n) : w[n]? = some ';' := by
  induction w generalizing parens braces hash n with
  | nil => cases h
  | cons x r ih =>
    -- whatever the counts are, the semicolon is found further on
    have hfurther : ∀ {p : Int} {b : Nat} {s : Bool},
        (valueLength? p b s r).map (· + 1) = some n → (x :: r)[n]? = some ';' := by
      intro p b s hstep
      obtain ⟨m, hm, rfl⟩ := Option.map_eq_some_iff.1 hstep
      exact ih hm
    rw [valueLength?] at h
    split at h
    · split at h
      · exact hfurther h
      · split at h
        · exact hfurther h
        · exact hfurther h
    · split at h
      · exact hfurther h
      · split at h
        · exact hfurther h
        · split at h
          · exact hfurther h
          · split at h
            · next hsemicolon =>
              cases h
              simp only [Bool.and_eq_true, decide_eq_true_eq] at hsemicolon
              rw [hsemicolon.1]
              rfl
            · split at h
              · cases h
              · exact hfurther h

/-- A declaration reaches from its dollar sign to its semicolon. -/
theorem Declaration.at?_found {d : Declaration} (h : c.At code) (hfound : Declaration.at? t c = some d) :
    d.span.start = c.pos ∧ d.span.start < d.span.stop ∧ d.span.stop ≤ code.length ∧
      byteBefore code d.span.stop = some ';' := by
  unfold Declaration.at? at hfound
  dsimp only at hfound
  split at hfound
  · cases hfound
  · next hcolon =>
    obtain ⟨k, hk, rfl⟩ := Option.map_eq_some_iff.1 hfound
    have hat : (((c.advance 1).skip isIdent).skip isBlank).At code := ((h.advance _).skip _).skip _
    have hle : c.pos ≤ (((c.advance 1).skip isIdent).skip isBlank).pos :=
      Nat.le_trans (Cursor.le_pos_advance c 1)
        (Nat.le_trans (Cursor.le_pos_skip _ _) (Cursor.le_pos_skip _ _))
    have hbyte : (((c.advance 1).skip isIdent).skip isBlank).byte? = some ':' := by
      simp only [Bool.or_eq_true, decide_eq_true_eq, not_or, Decidable.not_not] at hcolon
      exact hcolon.2
    -- the colon is a byte of the code, and so is the semicolon
    have hlt : (((c.advance 1).skip isIdent).skip isBlank).pos < code.length := by
      rw [hat.byte?] at hbyte
      exact (List.getElem?_eq_some_iff.1 hbyte).1
    have hpos : ((((c.advance 1).skip isIdent).skip isBlank).advance 1).pos =
        (((c.advance 1).skip isIdent).skip isBlank).pos + 1 := by
      have hlength := hat.length_rest
      rw [Cursor.pos_advance]
      omega
    have hsemicolon := valueLength?_spec hk
    rw [(hat.advance 1).getElem?_rest, hpos] at hsemicolon
    obtain ⟨hend, -⟩ := List.getElem?_eq_some_iff.1 hsemicolon
    refine ⟨rfl, ?_, ?_, hsemicolon⟩
    · show c.pos < (((c.advance 1).skip isIdent).skip isBlank).pos + 1 + k + 1
      omega
    · exact hend

/-- Each declaration has been seen at a place further on. -/
theorem mem_findFrom {d : Declaration} {s : Declaration.Scan} {seen : Text} (hpos : pos ≤ code.length)
    (h : d ∈ Declaration.findFrom t s seen pos wait (code.drop pos)) :
    ∃ c, c.At code ∧ pos + wait ≤ c.pos ∧ Declaration.at? t c = some d := by
  generalize hw : code.drop pos = w at h
  induction w generalizing s seen pos wait with
  | nil => cases h
  | cons x r ih =>
    obtain ⟨hr, hnext⟩ := drop_of_cons hw
    rw [Declaration.findFrom] at h
    split at h
    · obtain ⟨c, hc, hle, hfound⟩ := ih hnext hr h
      exact ⟨c, hc, by omega, hfound⟩
    · dsimp only at h
      split at h
      · next e he =>
        rcases List.mem_cons.1 h with rfl | h
        · split at he
          · exact ⟨_, ⟨hpos, hw.symm⟩, by simp only; omega, he⟩
          · cases he
        · obtain ⟨c, hc, hle, hfound⟩ := ih hnext hr h
          exact ⟨c, hc, by omega, hfound⟩
      · obtain ⟨c, hc, hle, hfound⟩ := ih hnext hr h
        exact ⟨c, hc, by omega, hfound⟩

theorem findFrom_pairwise {s : Declaration.Scan} {seen : Text} (hpos : pos ≤ code.length) :
    (Declaration.findFrom t s seen pos wait (code.drop pos)).Pairwise fun d e =>
      d.span.stop ≤ e.span.start := by
  generalize hw : code.drop pos = w
  induction w generalizing s seen pos wait with
  | nil => exact .nil
  | cons x r ih =>
    obtain ⟨hr, hnext⟩ := drop_of_cons hw
    rw [Declaration.findFrom]
    split
    · exact ih hnext hr
    · dsimp only
      split
      · next d hd =>
        split at hd
        · refine List.pairwise_cons.2 ⟨?_, ih hnext hr⟩
          -- whatever is found later begins behind the wait
          intro e he
          rw [← hr] at he
          obtain ⟨c, hc, hle, hfound⟩ := mem_findFrom hnext he
          obtain ⟨hstart, hlt, -, -⟩ := Declaration.at?_found ⟨hpos, hw.symm⟩ hd
          obtain ⟨hstart', -, -, -⟩ := Declaration.at?_found hc hfound
          simp only at hstart
          omega
        · cases hd
      · exact ih hnext hr

/-- **The declarations of a text lie apart, and each ends in its semicolon.** -/
theorem Declaration.find_apart (t : Text) : Apart (codeMask t) ((Declaration.find t).map (·.span)) ∧
    ∀ d ∈ Declaration.find t, byteBefore (codeMask t) d.span.stop = some ';' := by
  have hseen : ∀ d ∈ Declaration.find t, ∃ c, c.At (codeMask t) ∧ Declaration.at? t c = some d := by
    intro d hd
    obtain ⟨c, hc, -, hfound⟩ := mem_findFrom (Nat.zero_le _) hd
    exact ⟨c, hc, hfound⟩
  refine ⟨⟨List.pairwise_map.2 (findFrom_pairwise (Nat.zero_le _)), ?_⟩, ?_⟩
  · intro s hs
    obtain ⟨d, hd, rfl⟩ := List.mem_map.1 hs
    obtain ⟨c, hc, hfound⟩ := hseen d hd
    obtain ⟨-, hlt, hlength, -⟩ := Declaration.at?_found hc hfound
    exact ⟨hlt, hlength⟩
  · intro d hd
    obtain ⟨c, hc, hfound⟩ := hseen d hd
    exact (Declaration.at?_found hc hfound).2.2.2

end Flatsheet
