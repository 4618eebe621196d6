import Flatsheet.Proofs.Text.LineZones

/-!
# `Proofs.Text.Composition` — masks of masks, and of texts that a line feed parts

A mask is a text, and can be masked again. The automaton then reads spaces where the comments were, and perhaps where
the strings were, but at each byte that is left it decides as it did before: it goes through the states of the first
reading (`State.veiled`), in which a comment has become code. What could mislead it are the bytes around a blanked one.
The byte ahead can only have become a space, and that completes no mark; the byte before matters if it is a colon, and a
colon behind which the text goes on in code is never blanked (`colon_shown`).

So a mask is read with the zones of its text, but for its comments (`zones_mask`), and a mask of a mask is the stricter
of the two (`mask_mask`). The other way in which masks compose is along a text: behind a line feed that is in no block
comment a text is masked as if it stood alone (`mask_append_feed`).

The main result is `mask_laws`.
-/

namespace Flatsheet.Mask

open Text

variable {mode mode' : Mode} {before before' ahead ahead' : Option Char} {s t' : State} {c : Char} {a b t : Text}

/-! ## One byte of a mask -/

/-- The state in which a byte of a mask is read, where the text itself was read in state `s`. -/
def State.veiled (mode : Mode) : State → State
  | .string q => .string q
  | .escaped q => if mode = .comments then .escaped q else .string q
  | _ => .code

/-- A byte of a mask with its zone there: what was a comment is a space in code. -/
def reread (mode : Mode) (b : Char × Zone) : Char × Zone :=
  (shown mode b, if b.2 = .comment then .code else b.2)

/-- A mark of two bytes, or a backslash, has been read as far as its first byte: the second one is ahead. -/
def State.Awaits : State → Option Char → Prop
  | .closing, ahead => ahead = some '/'
  | .escaped _, ahead => protects ahead = true
  | _, _ => True

theorem awaits_next : (s.next before c ahead).Awaits ahead := by
  cases s with
  | code =>
    rw [State.next]
    split
    · trivial
    · split
      · trivial
      · split <;> trivial
  | opening block => cases block <;> trivial
  | lineComment =>
    rw [State.next]
    split <;> trivial
  | blockComment =>
    rw [State.next]
    split
    · next hclose =>
      rw [Bool.and_eq_true, decide_eq_true_eq, decide_eq_true_eq] at hclose
      exact hclose.2
    · trivial
  | closing => trivial
  | string q =>
    rw [State.next]
    split
    · next hback =>
      rw [Bool.and_eq_true] at hback
      exact hback.2
    · split <;> trivial
  | escaped q => trivial

/-- **A colon behind which the text goes on in code is shown.** -/
theorem colon_shown (hs : s.Quoted) (hc : s.Awaits (some ':')) (h : s.next before ':' ahead = .code) :
    s.blanks mode ':' .code = false := by
  cases s with
  | code => rfl
  | opening block => cases block <;> cases h
  | lineComment => cases h
  | blockComment => cases h
  | closing => cases hc
  | string q => simp [State.blanks]
  | escaped q => cases h

/-- **A mask reads a byte as its text does**: from the veiled state to the veiled state, in the zone that is left. -/
def Rereads (mode : Mode) (before' ahead' : Option Char) (s : State) (c : Char) (t' : State) : Prop :=
  (s.veiled mode).next before' (reread mode (c, s.zone c t')).1 ahead' = t'.veiled mode ∧
    (s.veiled mode).zone (reread mode (c, s.zone c t')).1 (t'.veiled mode) = (reread mode (c, s.zone c t')).2

/-- A byte of a comment is a space of the code, unless it is a line feed. -/
theorem rereads_comment (hs : s.veiled mode = .code) (ht : t'.veiled mode = .code)
    (hblanks : (∀ m, s.blanks m c t' = true) ∨ c = '\n' ∧ ∀ m, s.blanks m c t' = false) :
    Rereads mode before' ahead' s c t' := by
  have hcode : ∀ x, x = ' ' ∨ x = '\n' →
      State.code.next before' x ahead' = .code ∧ State.code.zone x .code = .code := by
    rintro x (rfl | rfl) <;> exact ⟨by simp [State.next], rfl⟩
  rw [Rereads, hs, ht]
  rcases hblanks with hblanked | ⟨rfl, hshown⟩
  · have hzone : s.zone c t' = .comment := if_pos (hblanked .comments)
    have hread : reread mode (c, s.zone c t') = (' ', .code) := by simp [reread, shown, hzone]
    rw [hread]
    exact hcode ' ' (.inl rfl)
  · have hzone : s.zone '\n' t' = .code := zone_eq_code_iff.2 (hshown .commentsAndStrings)
    have hread : reread mode ('\n', s.zone '\n' t') = ('\n', .code) := by simp [reread, shown, hzone]
    rw [hread]
    exact hcode '\n' (.inr rfl)

/-- In a comment everything is blanked but the line feeds. -/
theorem rereads_inside (hs : s.veiled mode = .code) (ht : t'.veiled mode = .code)
    (hblanks : ∀ m, s.blanks m c t' = decide (c ≠ '\n')) : Rereads mode before' ahead' s c t' := by
  apply rereads_comment hs ht
  by_cases hline : c = '\n'
  · refine .inr ⟨hline, fun m => ?_⟩
    rw [hblanks, hline]
    rfl
  · refine .inl fun m => ?_
    rw [hblanks, decide_eq_true hline]

/-- A byte that is shown is read in its zone. -/
theorem reread_of_shown (h : ∀ m, s.blanks m c t' = false) : reread mode (c, s.zone c t') = (c, .code) := by
  have hzone : s.zone c t' = .code := zone_eq_code_iff.2 (h .commentsAndStrings)
  simp [reread, shown, hzone]

/-- A byte of the code that opens no comment. -/
theorem rereads_code (hmark : ¬ ∃ block, State.code.next before c ahead = .opening block)
    (hcolon : before = some ':' → before' = some ':') (hahead : ahead' = ahead ∨ ahead' = some ' ') :
    Rereads mode before' ahead' .code c (State.code.next before c ahead) := by
  have hnext : State.code.next before' c ahead' = State.code.next before c ahead := by
    by_cases hslash : c = '/'
    · subst hslash
      have hstar : ahead ≠ some '*' := fun h => hmark ⟨true, by simp [State.next, h]⟩
      have hcomment : ahead = some '/' → before = some ':' := by
        intro h
        apply Classical.byContradiction
        intro hbefore
        exact hmark ⟨false, by simp [State.next, h, hbefore]⟩
      have hcode : ∀ {b y : Option Char}, y ≠ some '*' → (y = some '/' → b = some ':') →
          State.code.next b '/' y = .code := by
        intro b y hy hb
        simpa [State.next, hy] using hb
      rw [hcode hstar hcomment]
      rcases hahead with rfl | rfl
      · exact hcode hstar fun h => hcolon (hcomment h)
      · exact hcode (by decide) fun h => by cases h
    · simp [State.next, hslash]
  have hopen : State.code.next before c ahead = .code ∨ State.code.next before c ahead = .string c := by
    rw [State.next] at hmark ⊢
    split
    · next h => exact absurd ⟨true, if_pos h⟩ hmark
    · next hblock =>
      rw [if_neg hblock] at hmark
      split
      · next h => exact absurd ⟨false, if_pos h⟩ hmark
      · split
        · exact .inr rfl
        · exact .inl rfl
  have hread : reread mode (c, State.code.zone c (State.code.next before c ahead)) = (c, .code) := by
    apply reread_of_shown
    rcases hopen with h | h <;> (rw [h]; exact fun _ => rfl)
  rw [Rereads, hread]
  rcases hopen with h | h <;> (rw [h] at hnext ⊢; exact ⟨hnext, rfl⟩)

/-- A byte that is blanked in a string is a space of that string. -/
theorem rereads_blanked {q : Char} (hq : q = '"' ∨ q = '\'') (hs : s.veiled .commentsAndStrings = .string q)
    (ht : t'.veiled .commentsAndStrings = .string q) (hzone : s.zone c t' = .quoted) :
    Rereads .commentsAndStrings before' ahead' s c t' := by
  have hread : reread .commentsAndStrings (c, s.zone c t') = (' ', .quoted) := by simp [reread, shown, hzone]
  have hspace : (State.string q).next before' ' ' ahead' = .string q := by
    rcases hq with rfl | rfl <;> simp [State.next]
  rw [Rereads, hread, hs, ht]
  exact ⟨hspace, rfl⟩

/-- A byte of a string is read with its string, whether the bytes of strings are shown or not. -/
theorem rereads_string {q : Char} (hq : q = '"' ∨ q = '\'')
    (hback : mode = .comments → c = '\\' → ahead' = ahead) :
    Rereads mode before' ahead' (.string q) c ((State.string q).next before c ahead) := by
  -- the byte closes the string, or it belongs to it
  have hopen : (State.string q).next before c ahead = .code ∧ c ≠ '\\' ∧ (c = q ∨ c = '\n') ∨ c ≠ '\n' ∧
      ((State.string q).next before c ahead = .string q ∨ (State.string q).next before c ahead = .escaped q) := by
    rw [State.next]
    split
    · next h =>
      refine .inr ⟨?_, .inr rfl⟩
      rintro rfl
      cases h
    · split
      · next hend =>
        refine .inl ⟨rfl, ?_, by simpa using hend⟩
        rintro rfl
        rcases hq with rfl | rfl <;> cases hend
      · next h => exact .inr ⟨fun hline => h (by simp [hline]), .inl rfl⟩
  cases mode with
  | comments =>
    have hsame : (State.string q).next before' c ahead' = (State.string q).next before c ahead := by
      by_cases h : c = '\\'
      · rw [hback rfl h]
        rfl
      · simp [State.next, h]
    have hread : ∀ t', reread .comments (c, (State.string q).zone c t') = (c, (State.string q).zone c t') := by
      intro t'
      have hzone : (State.string q).zone c t' ≠ .comment := by
        rw [State.zone, if_neg (by simp [State.blanks])]
        split <;> (intro h; cases h)
      simp [reread, shown, hzone]
    rw [Rereads, hread]
    rcases hopen with ⟨h, -⟩ | ⟨-, h | h⟩ <;> (rw [h] at hsame ⊢; exact ⟨hsame, rfl⟩)
  | commentsAndStrings =>
    rcases hopen with ⟨h, hslash, hend⟩ | ⟨hline, h⟩
    · have hread : reread .commentsAndStrings (c, (State.string q).zone c .code) = (c, .code) :=
        reread_of_shown fun _ => by simp [State.blanks]
      rw [h, Rereads, hread]
      exact ⟨by simp [State.veiled, State.next, hslash, hend], rfl⟩
    · rcases h with h | h <;> (rw [h]; exact rereads_blanked hq rfl rfl (by simp [State.zone, State.blanks, hline]))

/-- **A byte of a mask is read as it was in the text.** The byte ahead can have been blanked, though not behind a
backslash in a string whose bytes are shown. -/
theorem rereads_next (hs : s.Quoted) (hc : s.Awaits (some c))
    (hcolon : s = .code → before = some ':' → before' = some ':') (hahead : ahead' = ahead ∨ ahead' = some ' ')
    (hback : mode = .comments → (∃ q, s = .string q) → c = '\\' → ahead' = ahead) :
    Rereads mode before' ahead' s c (s.next before c ahead) := by
  cases s with
  | code =>
    -- a comment that opens here is blanked, and what is blanked opens nothing
    by_cases hmark : ∃ block, State.code.next before c ahead = .opening block
    · obtain ⟨block, hmark⟩ := hmark
      rw [hmark]
      exact rereads_comment rfl rfl (.inl fun _ => rfl)
    · exact rereads_code hmark (hcolon rfl) hahead
  | opening block => cases block <;> exact rereads_inside rfl rfl fun _ => rfl
  | lineComment =>
    refine rereads_inside rfl ?_ fun _ => rfl
    rw [State.next]
    split <;> rfl
  | blockComment =>
    refine rereads_inside rfl ?_ fun _ => rfl
    rw [State.next]
    split <;> rfl
  | closing => exact rereads_inside rfl rfl fun _ => rfl
  | string q => exact rereads_string hs fun hmode h => hback hmode ⟨q, rfl⟩ h
  | escaped q =>
    have hline : c ≠ '\n' := by
      rintro rfl
      cases hc
    have hzone : (State.escaped q).zone c (.string q) = .quoted := by simp [State.zone, State.blanks, hline]
    cases mode with
    | comments =>
      have hread : reread .comments (c, (State.escaped q).zone c (.string q)) = (c, .quoted) := by
        simp [reread, shown, hzone]
      rw [State.next, Rereads, hread]
      exact ⟨rfl, hzone⟩
    | commentsAndStrings => exact rereads_blanked hs rfl rfl hzone

/-! ## Masks of masks -/

/-- The byte ahead of a piece of a mask. -/
theorem head?_run (r : Text) : (run mode (some c) s r).head? =
    r.head?.map fun x => if s.blanks mode x (s.next (some c) x r.tail.head?) then ' ' else x := by
  cases r <;> rfl

/-- Behind a backslash in a string, a mask that shows strings shows the byte. -/
theorem head?_run_backslash {q : Char} (hq : q = '"' ∨ q = '\'') (r : Text) :
    (run .comments (some '\\') ((State.string q).next before '\\' r.head?) r).head? = r.head? := by
  have hopen : (State.string q).next before '\\' r.head? = .escaped q ∨
      (State.string q).next before '\\' r.head? = .string q := by
    rw [State.next]
    split
    · exact .inl rfl
    · rcases hq with rfl | rfl <;> exact .inr rfl
  have hshown : ∀ x t', ((State.string q).next before '\\' r.head?).blanks .comments x t' = false := by
    intro x t'
    rcases hopen with h | h <;> (rw [h]; simp [State.blanks])
  rw [head?_run]
  simp [hshown]

/-- **A mask is read with the zones of its text**, but for the comments. -/
theorem zoned_run (hs : s.Quoted) (ht : s.Awaits t.head?)
    (hcolon : s = .code → before = some ':' → before' = some ':') :
    zoned before' (s.veiled mode) none (run mode before s t) = (zoned before s none t).map (reread mode) := by
  induction t generalizing before before' s with
  | nil => rfl
  | cons c r ih =>
    have hshown : (if s.blanks mode c (s.next before c r.head?) then ' ' else c) =
        (reread mode (c, s.zone c (s.next before c r.head?))).1 := (shown_zone mode).symm
    -- the byte ahead in the mask is that of the text, or it has been blanked
    have hahead : (run mode (some c) (s.next before c r.head?) r).head? = r.head? ∨
        (run mode (some c) (s.next before c r.head?) r).head? = some ' ' := by
      rw [head?_run]
      cases r with
      | nil => exact .inl rfl
      | cons x r =>
        rw [List.head?_cons, Option.map_some]
        split
        · exact .inr rfl
        · exact .inl rfl
    have hback : mode = .comments → (∃ q, s = .string q) → c = '\\' →
        (run mode (some c) (s.next before c r.head?) r).head? = r.head? := by
      rintro rfl ⟨q, rfl⟩ rfl
      exact head?_run_backslash hs r
    have hrest : s.next before c r.head? = .code → some c = some ':' →
        some (reread mode (c, s.zone c (s.next before c r.head?))).1 = some ':' := by
      intro hcode heq
      cases heq
      rw [← hshown, hcode, colon_shown hs ht hcode, if_neg Bool.false_ne_true]
    obtain ⟨hnext, hzone⟩ := rereads_next hs ht hcolon hahead hback
    simp only [run, zoned, List.map_cons, Option.or_none, hshown]
    rw [hnext, hzone, ih hs.next awaits_next hrest]

theorem zones_mask (mode : Mode) (t : Text) : zones (mask mode t) = (zones t).map (reread mode) :=
  zoned_run (s := .code) quoted_code trivial fun _ => id

/-- The mode that blanks what either of the two blanks. -/
def Mode.stricter (mode mode' : Mode) : Mode := if mode = .comments then mode' else mode

theorem shown_reread (mode mode' : Mode) (b : Char × Zone) :
    shown mode' (reread mode b) = shown (mode.stricter mode') b := by
  obtain ⟨x, z⟩ := b
  cases mode <;> cases mode' <;> cases z <;> rfl

/-- **A mask of a mask is the stricter of the two.** -/
theorem mask_mask (mode mode' : Mode) (t : Text) : mask mode' (mask mode t) = mask (mode.stricter mode') t := by
  rw [mask_eq_zones, zones_mask, List.map_map, mask_eq_zones]
  exact List.map_congr_left fun b _ => shown_reread mode mode' b

/-! ## Bytes of a mask -/

/-- **A mask shows a byte of its text or a space.** -/
theorem getElem?_mask_or {i : Nat} (mode : Mode) (h : t[i]? = some c) :
    (mask mode t)[i]? = some c ∨ (mask mode t)[i]? = some ' ' := by
  rw [getElem?_mask mode h]
  split
  · exact .inr rfl
  · exact .inl rfl

/-- **A mask has the line feeds of its text.** -/
theorem getElem?_mask_newline (mode : Mode) (t : Text) (i : Nat) :
    (mask mode t)[i]? = some '\n' ↔ t[i]? = some '\n' := by
  constructor
  · intro h
    exact getElem?_of_run h (by decide)
  · intro h
    rw [getElem?_mask mode h, blanks_newline, if_neg Bool.false_ne_true]

/-! ## Texts that a line feed parts -/

/-- **Behind a line feed that is in no block comment** a text is masked as if it stood alone. -/
theorem mask_append_feed (h : State.after none .code none a ≠ .blockComment) (b : Text) :
    mask mode (a ++ '\n' :: b) = mask mode a ++ '\n' :: mask mode b := by
  have hsame : piece mode none .code (some '\n') a = mask mode a := by
    rw [mask, run_eq_piece]
    exact piece_of_inert quoted_code (inert_of_blank rfl) inert_none a
  have hcode : (State.after none .code (some '\n') a).next a.getLast? '\n' b.head? = .code := by
    have hbegins : Begins .code := .inl rfl
    rcases hbegins.after_feed a b.head? with hcomment | hcode
    · rw [after_none] at h
      exact absurd hcomment h
    · rw [after_concat, Option.or_none] at hcode
      exact hcode
  have hrest : run mode (some '\n') .code b = mask mode b := run_congr_before fun _ => by simp
  rw [mask, run_append, List.head?_cons, hsame, Option.or_none, run_newline, hcode, hrest]

/-! ## The laws -/

/-- **The laws of masking.** A mask has the length and the line feeds of its text, and otherwise shows its bytes or
spaces; masking again changes nothing, and comments can be masked first; and a line feed that is in no block comment
parts what is masked before it from what is masked behind it. -/
theorem mask_laws (mode : Mode) (t : Text) :
    (mask mode t).length = t.length ∧
      (∀ i : Nat, (mask mode t)[i]? = some '\n' ↔ t[i]? = some '\n') ∧
      (∀ (i : Nat) (c : Char), t[i]? = some c → (mask mode t)[i]? = some c ∨ (mask mode t)[i]? = some ' ') ∧
      mask mode (mask mode t) = mask mode t ∧
      codeMask (commentMask t) = codeMask t ∧
      ∀ a b, State.after none .code none a ≠ .blockComment →
        mask mode (a ++ '\n' :: b) = mask mode a ++ '\n' :: mask mode b := by
  refine ⟨length_mask mode t, getElem?_mask_newline mode t, fun _ _ h => getElem?_mask_or mode h, ?_, ?_,
    fun _ b h => mask_append_feed h b⟩
  · rw [mask_mask]
    cases mode <;> rfl
  · exact mask_mask .comments .commentsAndStrings t

/-- The first line ends in a string that nobody closes, with a comment mark in it. -/
theorem mask_laws_openString :
    State.after none .code none "a /* ' */ url('b//c".toList ≠ .blockComment ∧
      codeMask "a /* ' */ url('b//c\nd // \"e\"".toList =
        codeMask "a /* ' */ url('b//c".toList ++ '\n' :: codeMask "d // \"e\"".toList ∧
      codeMask "a /* ' */ url('b//c\nd // \"e\"".toList = "a         url('    \nd       ".toList :=
  ⟨by decide,
    (mask_laws .commentsAndStrings []).2.2.2.2.2 "a /* ' */ url('b//c".toList "d // \"e\"".toList (by decide),
    by decide⟩

end Flatsheet.Mask
