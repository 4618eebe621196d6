import Flatsheet.Proofs.Text.Occurrence
import Flatsheet.Proofs.Text.Seam
import Flatsheet.Style.Recipe

/-!
# `Proofs.Style.Marker` — the marker is one closed comment

The marker quotes an include that nobody can expand, with all that the include brings along: comments, halves of
comments, strings. In what it quotes each `*/` is broken up (`occurrences_breakCommentEnds`), so the only one is
the marker's own (`marker_inside`).

A comment is read through as a whole (`mask_comment`): behind a text that ends in code the mask of the text is
as it was, the comment is blank, and what comes after it is masked as if it stood alone. So a marker hides what
it quotes and nothing else (`marker_closed`).
-/

namespace Flatsheet

open Text Style

variable {mode : Mask.Mode} {before ahead : Option Char} {front inside t : Text}

/-! ## Comments -/

namespace Mask

/-- A text with a space for each byte but the line feeds. -/
def blanked (t : Text) : Text := t.map fun c => if c = '\n' then c else ' '

/-- One byte inside of a block comment that is not closed here: the comment goes on, and neither the rest nor its end
closes it. -/
theorem blockComment_step (before : Option Char) {c : Char} {r : Text} (hinside : occurrences "*/".toList (c :: r) = 0)
    (hend : ¬ ((c :: r).getLast? = some '*' ∧ ahead = some '/')) :
    State.blockComment.next before c (r.head?.or ahead) = .blockComment ∧
      occurrences "*/".toList r = 0 ∧ ¬ (r.getLast? = some '*' ∧ ahead = some '/') := by
  rw [occurrences, Nat.add_eq_zero_iff] at hinside
  obtain ⟨hhere, hrest⟩ := hinside
  have hclosed : ¬ (c = '*' ∧ r.head?.or ahead = some '/') := by
    rintro ⟨rfl, hnext⟩
    cases r with
    | nil => exact hend ⟨rfl, hnext⟩
    | cons x r =>
      obtain rfl : x = '/' := Option.some.inj hnext
      simp [startsWith] at hhere
  refine ⟨?_, hrest, ?_⟩
  · simp only [State.next, Bool.and_eq_true, decide_eq_true_eq, if_neg hclosed]
  · rintro ⟨hr, hahead⟩
    apply hend
    rw [List.getLast?_cons, hr]
    exact ⟨rfl, hahead⟩

/-- **Inside a block comment** everything is blanked up to the mark that closes it. -/
theorem inside_comment (hinside : occurrences "*/".toList t = 0)
    (hend : ¬ (t.getLast? = some '*' ∧ ahead = some '/')) :
    State.after before .blockComment ahead t = .blockComment ∧
      piece mode before .blockComment ahead t = blanked t := by
  induction t generalizing before with
  | nil => exact ⟨rfl, rfl⟩
  | cons c r ih =>
    obtain ⟨hnext, hrest, hlast⟩ := blockComment_step before hinside hend
    obtain ⟨hafter, hpiece⟩ := ih hrest hlast
    rw [State.after, piece, hnext, hafter, hpiece]
    refine ⟨rfl, ?_⟩
    by_cases hc : c = '\n' <;> simp [blanked, State.blanks, hc]

/-- **Inside a line comment** everything is blanked up to the end of the line. -/
theorem inside_line_comment (hline : '\n' ∉ t) : State.after before .lineComment ahead t = .lineComment ∧
    piece mode before .lineComment ahead t = List.replicate t.length ' ' := by
  induction t generalizing before with
  | nil => exact ⟨rfl, rfl⟩
  | cons c r ih =>
    rw [List.mem_cons, not_or] at hline
    have hc : c ≠ '\n' := Ne.symm hline.1
    have hnext : State.lineComment.next before c (r.head?.or ahead) = .lineComment := if_neg hc
    obtain ⟨hafter, hpiece⟩ : State.after (some c) .lineComment ahead r = .lineComment ∧
        piece mode (some c) .lineComment ahead r = List.replicate r.length ' ' := ih hline.2
    rw [State.after, piece, hnext, hafter, hpiece]
    exact ⟨rfl, by simp [State.blanks, hc, List.replicate_succ]⟩

/-- A block comment. -/
def comment (inside : Text) : Text := "/*".toList ++ inside ++ "*/".toList

/-- A text that ends in code, and not with a slash, ends in code whatever follows. -/
theorem after_of_no_slash (hcode : State.after none .code none front = .code)
    (hslash : front.getLast? ≠ some '/') : State.after none .code ahead front = .code := by
  rcases List.eq_nil_or_concat front with rfl | ⟨a, c, rfl⟩
  · rfl
  · rw [List.concat_eq_append, List.getLast?_concat] at hslash
    rw [List.concat_eq_append, after_concat] at hcode ⊢
    apply next_code_congr (State.Quoted.after quoted_code a) hcode
    rintro - rfl
    exact absurd rfl hslash

/-- A comment that begins in code is blanked, and what comes after it is read as if it stood alone. -/
theorem run_comment (hinside : occurrences "*/".toList inside = 0) (back : Text) :
    run mode before .code (comment inside ++ back) = blanked (comment inside) ++ mask mode back := by
  obtain ⟨hafter, hpiece⟩ : State.after (some '*') .blockComment (some '*') inside = .blockComment ∧
      piece mode (some '*') .blockComment (some '*') inside = blanked inside := inside_comment hinside nofun
  have hmark : comment inside ++ back = '/' :: '*' :: (inside ++ '*' :: '/' :: back) := by simp [comment]
  have hback : run mode (some '/') .code back = mask mode back :=
    run_congr_before fun _ => by simp
  -- the four bytes of the two marks, one by one, and between them the inside as a piece
  rw [hmark, run, run]
  simp only [List.head?_cons, State.next, decide_true, Bool.and_true, if_true]
  rw [run_append, List.head?_cons, hafter, hpiece, run, run, ← hback]
  simp [State.next, State.blanks, blanked, comment]

/-- **A comment behind code is read through as a whole.** -/
theorem mask_comment (mode : Mode) (back : Text) (hinside : occurrences "*/".toList inside = 0)
    (hcode : State.after none .code none front = .code) (hslash : front.getLast? ≠ some '/') :
    mask mode (front ++ comment inside ++ back) =
      mask mode front ++ blanked (comment inside) ++ mask mode back := by
  have hhead : (comment inside ++ back).head? = some '/' := rfl
  have hfront : State.after none .code (some '/') front = .code := after_of_no_slash hcode hslash
  rw [List.append_assoc, mask, run_append, hhead, hfront, piece_of_after hfront, run_comment hinside back,
    List.append_assoc]

end Mask

/-! ## The marker -/

theorem head?_breakCommentEnds (t : Text) : (breakCommentEnds t).head? = t.head? := by
  fun_cases breakCommentEnds t <;> rfl

/-- **Where comment ends are broken up there is none.** -/
theorem occurrences_breakCommentEnds (t : Text) : occurrences "*/".toList (breakCommentEnds t) = 0 := by
  induction t using breakCommentEnds.induct with
  | case1 r ih => simpa [breakCommentEnds, occurrences, startsWith] using ih
  | case2 c r hend ih =>
    have hhere : startsWith (c :: breakCommentEnds r) "*/".toList = false := by
      rw [Bool.eq_false_iff]
      intro hbegins
      obtain ⟨q, hq⟩ := List.isPrefixOf_iff_prefix.1 hbegins
      obtain ⟨rfl, hrest⟩ := List.cons.inj hq
      have hslash : r.head? = some '/' := by
        rw [← head?_breakCommentEnds, ← hrest]
        rfl
      obtain ⟨r', rfl⟩ := List.head?_eq_some_iff.1 hslash
      exact hend r' rfl rfl
    rw [breakCommentEnds, occurrences, hhere, ih]
    · rfl
    · exact hend
  | case3 => rfl

/-- A piece that begins with a space, or is empty, can be put behind anything. -/
theorem occurrences_append_space {a b : Text} (hb : ∀ x, b.head? = some x → x = ' ') :
    occurrences "*/".toList (a ++ b) = occurrences "*/".toList a + occurrences "*/".toList b := by
  apply occurrences_append
  intro hcrosses
  obtain ⟨-, hslash⟩ := crosses_pair.1 hcrosses
  cases hb '/' hslash

/-- A piece can be put behind anything that ends with a space. -/
theorem occurrences_space_append {a b : Text} (ha : a.getLast? = some ' ') :
    occurrences "*/".toList (a ++ b) = occurrences "*/".toList a + occurrences "*/".toList b := by
  apply occurrences_append
  intro hcrosses
  obtain ⟨hstar, -⟩ := crosses_pair.1 hcrosses
  rw [ha] at hstar
  cases hstar

/-- A broken up text between two pieces of the marker. -/
theorem occurrences_quoted {front back : Text} (hfront : front.getLast? = some ' ')
    (hback : ∀ x, back.head? = some x → x = ' ') (t : Text) :
    occurrences "*/".toList (front ++ breakCommentEnds t ++ back) =
      occurrences "*/".toList front + occurrences "*/".toList back := by
  rw [occurrences_append_space hback, occurrences_space_append hfront, occurrences_breakCommentEnds, Nat.add_zero]

/-- **The marker is a comment in which no other one ends.** -/
theorem marker_inside (call : MixinCall) :
    ∃ inside, call.marker = Mask.comment inside ∧ inside.head? = some ' ' ∧
      occurrences "*/".toList inside = 0 := by
  obtain ⟨quoted, block, hmarker, hhead, hblock⟩ : ∃ quoted block,
      call.marker = "/* TODO: convert mixin ".toList ++ breakCommentEnds quoted ++ " manually".toList ++ block ++
        " */".toList ∧ (∀ x, block.head? = some x → x = ' ') ∧ occurrences "*/".toList block = 0 := by
    refine ⟨_, _, rfl, ?_, ?_⟩
    · split
      · split
        · nofun
        · rintro x ⟨⟩
          rfl
      · nofun
    · split
      · split
        · rfl
        · rw [occurrences_quoted rfl]
          · rfl
          · rintro x ⟨⟩
            rfl
      · rfl
  refine ⟨" TODO: convert mixin ".toList ++ breakCommentEnds quoted ++ (" manually".toList ++ block ++ " ".toList),
    ?_, rfl, ?_⟩
  · rw [hmarker]
    simp [Mask.comment]
  · -- the pieces meet at spaces, over which no mark can reach
    have hmanually : ∀ x, (" manually".toList ++ block ++ " ".toList).head? = some x → x = ' ' := by
      rintro x ⟨⟩
      rfl
    have hspace : ∀ x, " ".toList.head? = some x → x = ' ' := by
      rintro x ⟨⟩
      rfl
    rw [occurrences_quoted rfl hmanually, occurrences_append_space hspace, occurrences_append_space hhead, hblock]
    rfl

/-- **The marker is one closed comment**, whatever its name, its arguments and its block: it ends with `*/` and
has no other. So behind code, unless a slash is right before it, a mask blanks the marker and nothing else. -/
theorem marker_closed (call : MixinCall) :
    (endsWith call.marker "*/".toList = true ∧ occurrences "*/".toList call.marker = 1) ∧
    ∀ (mode : Mask.Mode) (front back : Text),
      Mask.State.after none .code none front = .code → front.getLast? ≠ some '/' →
        mask mode (front ++ call.marker ++ back) =
          mask mode front ++ Mask.blanked call.marker ++ mask mode back := by
  obtain ⟨inside, hmarker, hspace, hinside⟩ := marker_inside call
  rw [hmarker]
  refine ⟨⟨?_, ?_⟩, ?_⟩
  · rw [endsWith, List.isSuffixOf_iff_suffix]
    exact List.suffix_append _ _
  · have hopened : ¬ Crosses "*/".toList "/*".toList inside := by
      intro hcrosses
      obtain ⟨-, hslash⟩ := crosses_pair.1 hcrosses
      rw [hspace] at hslash
      cases hslash
    have hclosed : ¬ Crosses "*/".toList ("/*".toList ++ inside) "*/".toList := by
      intro hcrosses
      obtain ⟨-, hslash⟩ := crosses_pair.1 hcrosses
      cases hslash
    rw [Mask.comment, occurrences_append hclosed, occurrences_append hopened, hinside]
    rfl
  · intro mode front back hcode hslash
    exact Mask.mask_comment mode back hinside hcode hslash

/-- A call whose argument and block end comments and begin some, after a colon. -/
def brokenCall : MixinCall := ⟨"a.b".toList, ["**//".toList, "/*".toList], some "*/ x: \"y\n//*/".toList, 1⟩

theorem brokenCall_closed :
    (endsWith brokenCall.marker "*/".toList = true ∧ occurrences "*/".toList brokenCall.marker = 1) ∧
    Mask.State.after none .code none "b: 'c';:".toList = .code ∧ "b: 'c';:".toList.getLast? ≠ some '/' ∧
    codeMask ("b: 'c';:".toList ++ brokenCall.marker ++ "/d: 'e'".toList) =
      "b: ' ';:".toList ++ Mask.blanked brokenCall.marker ++ "/d: ' '".toList := by
  obtain ⟨hends, hmasked⟩ := marker_closed brokenCall
  have hcode : Mask.State.after none .code none "b: 'c';:".toList = .code := rfl
  have hslash : "b: 'c';:".toList.getLast? ≠ some '/' := by decide
  exact ⟨hends, hcode, hslash, hmasked .commentsAndStrings "b: 'c';:".toList "/d: 'e'".toList hcode hslash⟩

end Flatsheet
