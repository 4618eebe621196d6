import Flatsheet.Proofs.Style.IncludeRounds
import Flatsheet.Proofs.Style.Marker

/-!
# `Proofs.Style.EndlessExpansion` — texts whose includes are expanded for ever

Centring writes its second argument four times. Where that argument begins, the line comment before it is over, so an
include that the comment hid is code in the result. And as the argument is trimmed it loses the line feed at its end, so
the line comment in which it ends goes on.

The texts here (`Layers`) are made for that. There is an include, and the parentheses that close it stand at the
beginnings of lines, behind comments in which the same include is hidden. What a round leaves of such a text is again
such a text (`Layers.includeRound_text`), with twice as much behind its comments. So the rounds never end, and the
length of the text grows exponentially with their number (`Layers.never_ends`).

All else that is hidden is junk: a comment does not end in it, nor does the quoted piece that it is part of when the
arguments are split (`Junk`).
-/

namespace Flatsheet.Style

open Text Check Mask

variable {mode : Mask.Mode} {before : Option Char} {a b f j r t w : Text} {opener closer : Char} {d : Int}

/-! ## Comments at the ends of lines -/

theorem run_inside_line_comment (hj : '\n' ∉ j) (r : Text) : run mode before .lineComment (j ++ '\n' :: r) =
    List.replicate j.length ' ' ++ '\n' :: run mode (some '\n') .code r := by
  obtain ⟨hafter, hpiece⟩ : State.after before .lineComment (some '\n') j = .lineComment ∧
      piece mode before .lineComment (some '\n') j = List.replicate j.length ' ' := inside_line_comment hj
  rw [run_append, List.head?_cons, hafter, hpiece, run_newline]
  rfl

/-- **A comment at the end of a line is blank**, and what comes after the line feed is code. -/
theorem run_line_comment (hj : '\n' ∉ j) (hcolon : before ≠ some ':') (r : Text) :
    run mode before .code ('/' :: '/' :: (j ++ '\n' :: r)) =
      List.replicate (j.length + 2) ' ' ++ '\n' :: run mode (some '\n') .code r := by
  have hopened : State.code.next before '/' (some '/') = .opening false := by simp [State.next, hcolon]
  rw [run, List.head?_cons, hopened, run]
  show ' ' :: ' ' :: run mode (some '/') .lineComment (j ++ '\n' :: r) = _
  rw [run_inside_line_comment hj]
  rfl

/-- A comment, on the next line a closing parenthesis, and what comes after it. -/
def commented (j r : Text) : Text := '/' :: '/' :: (j ++ '\n' :: ')' :: r)

/-- The same with the comment blanked. -/
def uncommented (j r : Text) : Text := List.replicate (j.length + 2) ' ' ++ '\n' :: ')' :: r

theorem run_commented (hj : '\n' ∉ j) (hcolon : before ≠ some ':') (r : Text) :
    run mode before .code (commented j r) = uncommented j (run mode (some ')') .code r) := by
  rw [commented, run_line_comment hj hcolon, run, next_of_plain (by decide)]
  rfl

/-! ## Groups -/

/-- Bytes that are no delimiters are passed over. -/
theorem closingOffset?_append (hopener : opener ∉ b) (hcloser : closer ∉ b) (r : Text) :
    closingOffset? opener closer d (b ++ r) = (closingOffset? opener closer d r).map (· + b.length) := by
  induction b with
  | nil => simp
  | cons x b ih =>
    rw [List.mem_cons, not_or] at hopener hcloser
    rw [List.cons_append, closingOffset?, if_neg (Ne.symm hopener.1), if_neg (Ne.symm hcloser.1),
      ih hopener.2 hcloser.2, Option.map_map]
    congr 1

/-- **A parenthesis behind a comment** closes one group. -/
theorem closingOffset?_uncommented (j r : Text) : closingOffset? '(' ')' d (uncommented j r) =
    if d - 1 = 0 then some (j.length + 3) else (closingOffset? '(' ')' (d - 1) r).map (· + (j.length + 4)) := by
  have hforeign : ∀ x ∈ ['(', ')'], x ∉ List.replicate (j.length + 2) ' ' ++ ['\n'] := by
    intro x hx
    rw [List.mem_append, List.mem_replicate, List.mem_singleton]
    rintro (⟨-, rfl⟩ | rfl) <;> exact absurd hx (by decide)
  rw [uncommented, List.append_cons, closingOffset?_append (hforeign '(' (by decide)) (hforeign ')' (by decide)),
    closingOffset?, if_neg (by decide), if_pos rfl]
  split
  · simp
  · rw [Option.map_map]
    congr 1
    funext n
    simp
    omega

/-! ## Arguments -/

/-- An argument without dollar signs stays as it is. -/
theorem normalizeArgument_eq_self (h : '$' ∉ t) : normalizeArgument t = t := by
  have hconverted : (convertReferences t).1 = t := by
    obtain ⟨pieces, tail, htext, hresult, -⟩ := weave_of_exposed t
    cases pieces with
    | nil => rw [hresult, htext]; rfl
    | cons piece pieces =>
      refine absurd ?_ h
      rw [htext]
      simp [weave, reference]
  unfold normalizeArgument
  split
  · exact absurd List.mem_cons_self h
  · exact hconverted

/-! ## The include -/

/-- The include as far as it is code. Three parentheses are open behind it. -/
def opening : Text := "@include centering(((".toList

/-- A scanner for includes goes over a text without at signs. -/
theorem sweepFrom_skip (hf : '@' ∉ f) (seen : Text) (pos : Nat) (w : Text) :
    sweepFrom (Include.look t) seen pos 0 (f ++ w) =
      sweepFrom (Include.look t) (f.reverse ++ seen) (pos + f.length) 0 w := by
  induction f generalizing seen pos with
  | nil => rfl
  | cons x f ih =>
    rw [List.mem_cons, not_or] at hf
    have hnothing : Include.look t ⟨seen, pos, x :: (f ++ w)⟩ = .nothing := by
      have hword : startsWith (x :: (f ++ w)) "@include".toList = false := by
        simp [startsWith, List.isPrefixOf, hf.1]
      unfold Include.look
      dsimp only
      rw [hword]
      rfl
    rw [List.cons_append, sweepFrom, if_neg (Nat.lt_irrefl 0), hnothing]
    dsimp only
    rw [ih hf.2]
    simp [Nat.add_assoc, Nat.add_comm 1]

theorem slice_name (f inside r : Text) :
    slice (f ++ ("@include centering(".toList ++ (inside ++ ')' :: r))) (f.length + 9) (f.length + 18) =
      "centering".toList := by
  have hcut : f ++ ("@include centering(".toList ++ (inside ++ ')' :: r)) =
      f ++ "@include ".toList ++ "centering".toList ++ '(' :: (inside ++ ')' :: r) := by simp
  rw [hcut]
  exact slice_between (by simp) (by simp)

theorem slice_inside (f inside r : Text) : slice (f ++ ("@include centering(".toList ++ (inside ++ ')' :: r)))
    (f.length + 18 + 1) (f.length + (20 + inside.length) - 1) = inside := by
  have hcut : f ++ ("@include centering(".toList ++ (inside ++ ')' :: r)) =
      f ++ "@include centering(".toList ++ inside ++ ')' :: r := by simp
  rw [hcut]
  exact slice_between (by simp) (by omega)

/-- **An include is seen where its beginning stands**, if its group is closed and a comment comes after it, and then
another closing parenthesis. -/
theorem look_opening {inside : Text}
    (hgroup : closingOffset? '(' ')' 0 ("(((".toList ++ w) = some (inside.length + 1))
    (hbehind : ("(((".toList ++ w).drop (inside.length + 2) = uncommented j b) (seen : Text) :
    ∃ line, Include.look (f ++ ("@include centering(".toList ++ (inside ++ ')' :: r))) ⟨seen, f.length, opening ++ w⟩ =
      .found ⟨⟨f.length, f.length + (20 + inside.length)⟩,
        ⟨"centering".toList, splitTopLevel ',' inside, none, line⟩⟩ (20 + inside.length) := by
  -- the places behind the keyword, at the name and behind it are the same in each text that begins so
  have hword : startsWith (opening ++ w) "@include".toList = true := rfl
  obtain ⟨before, hname, hbyte, hnameEnd⟩ : ∃ before : Text,
      ((Cursor.advance ⟨seen, f.length, opening ++ w⟩ 8).skip isBlank).pos = f.length + 9 ∧
      (Cursor.advance ⟨seen, f.length, opening ++ w⟩ 8).byte? = some ' ' ∧
      ((Cursor.advance ⟨seen, f.length, opening ++ w⟩ 8).skip isBlank).skip (fun b => isIdent b || b = '.') =
        ⟨before, f.length + 18, "(((".toList ++ w⟩ := ⟨_, rfl, rfl, rfl⟩
  have hstart : (Cursor.mk before (f.length + 18) ("(((".toList ++ w)).skip isBlank =
      ⟨before, f.length + 18, "(((".toList ++ w⟩ := rfl
  have hopens : (Cursor.mk before (f.length + 18) ("(((".toList ++ w)).byte? = some '(' := rfl
  -- the place behind the group, where the comment stands
  obtain ⟨hinside, -⟩ := List.getElem?_eq_some_iff.1 (getElem?_of_closingOffset hgroup)
  obtain ⟨after, hstop⟩ : ∃ after : Text,
      (Cursor.mk before (f.length + 18) ("(((".toList ++ w)).advance (inside.length + 2) =
        ⟨after, f.length + (20 + inside.length), uncommented j b⟩ := by
    refine ⟨(("(((".toList ++ w).take (inside.length + 2)).reverse ++ before, ?_⟩
    rw [Cursor.advance, hbehind, List.length_take, Nat.min_eq_left hinside]
    have hpos : f.length + 18 + (inside.length + 2) = f.length + (20 + inside.length) := by omega
    rw [← hpos]
  have hcloses : ((Cursor.mk after (f.length + (20 + inside.length)) (uncommented j b)).skip isBlank).byte? =
      some ')' := by
    rw [Cursor.byte?, Cursor.rest_skip, uncommented, List.dropWhile_append_of_pos (by simp [isBlank])]
    rfl
  refine ⟨lineNumberAt (f ++ ("@include centering(".toList ++ (inside ++ ')' :: r))) f.length, ?_⟩
  unfold Include.look
  dsimp only
  rw [hword, hbyte, hname, hnameEnd, hstart, hopens]
  rw [if_neg (by decide), if_neg (by simp), if_pos rfl, Cursor.group?, hgroup]
  simp only [Option.map_some]
  rw [hstop, hcloses, if_neg (by decide)]
  dsimp only
  rw [hcloses, if_neg (by decide), slice_name, groupInside, slice_inside, Nat.add_sub_cancel_left]
  rfl

/-! ## Junk -/

/-- Text that is hidden in a comment, and in a quoted piece of an argument list. -/
structure Junk (j : Text) : Prop where
  /-- It does not end the comment. -/
  line : '\n' ∉ j
  /-- It refers to no variable. -/
  dollar : '$' ∉ j
  /-- It does not end the quoted piece, at whatever depth. -/
  quoted : ∀ depth, stateAfter? ',' ⟨depth, some '\'', false⟩ j = some ⟨depth, some '\'', false⟩
  /-- It stays as it is when it is trimmed at the end. -/
  last : j.getLast?.any isBlank = false

theorem Junk.nil : Junk [] := ⟨List.not_mem_nil, List.not_mem_nil, fun _ => rfl, rfl⟩

theorem Junk.append (ha : Junk a) (hb : Junk b) : Junk (a ++ b) := by
  refine ⟨?_, ?_, ?_, ?_⟩
  · exact fun h => (List.mem_append.1 h).elim ha.line hb.line
  · exact fun h => (List.mem_append.1 h).elim ha.dollar hb.dollar
  · intro depth
    rw [stateAfter?_append, ha.quoted]
    exact hb.quoted depth
  · have hlast := hb.last
    rw [List.getLast?_append]
    cases hb' : b.getLast? with
    | none => exact ha.last
    | some y => rwa [hb'] at hlast

/-- The include with the comment that begins in it. Its last byte opens a quoted piece. -/
def covered : Text := opening ++ "//))\\'".toList

theorem junk_covered : Junk covered := by
  refine ⟨by decide, by decide, ?_, by decide⟩
  intro depth
  -- a backslash protects the quote at the end
  have hcut : covered = (opening ++ "//))".toList) ++ "\\'".toList := rfl
  rw [hcut, stateAfter?_append, stateAfter?_quoted (by decide) (by decide)]
  rfl

theorem junk_left : Junk ";left:)))".toList :=
  ⟨by decide, by decide, fun _ => stateAfter?_quoted (by decide) (by decide), by decide⟩

theorem junk_transform : Junk ";transform:translate(-)))".toList :=
  ⟨by decide, by decide, fun _ => stateAfter?_quoted (by decide) (by decide), by decide⟩

/-! ## The texts -/

/-- What comes behind a closing parenthesis in the comment: the end of a quoted piece, a separator, unless it is in a
group, and a covered include. -/
def link : Text := "',)))".toList ++ covered

/-- A text with an include that opens three parentheses, and after it four comments, with a parenthesis on the line
behind each. The first three parentheses close the include. -/
structure Layers where
  /-- The text before the include. -/
  front : Text
  /-- The junk at the ends of the first three comments. -/
  first : Text
  second : Text
  third : Text
  /-- The last comment. -/
  remark : Text
  /-- The text behind the last parenthesis. -/
  back : Text
  plain : Plain front
  quiet : '@' ∉ front
  junk_first : Junk first
  junk_second : Junk second
  junk_third : Junk third
  line : '\n' ∉ remark

namespace Layers

variable (l : Layers)

/-- The text itself. -/
def text : Text :=
  l.front ++ (opening ++ commented ("))\\'".toList ++ l.first)
    (commented (link ++ l.second) (commented (link ++ l.third) (commented l.remark l.back))))

/-- The first argument of the include. -/
def edge : Text := "((//))\\'".toList ++ (l.first ++ "\n)//'".toList)

/-- The second argument of the include. -/
def amount : Text := ")))".toList ++ (covered ++ (l.second ++ ("\n)//".toList ++ (link ++ l.third))))

/-- What the include has between its parentheses. -/
def inside : Text := l.edge ++ ',' :: (l.amount ++ ['\n'])

theorem text_eq : l.text =
    l.front ++ ("@include centering(".toList ++ (l.inside ++ ')' :: commented l.remark l.back)) := by
  have hopening : opening = "@include centering(".toList ++ "((".toList := rfl
  unfold text inside edge amount commented link
  simp only [hopening, String.reduceToList, List.append_assoc, List.cons_append, List.nil_append]

theorem dollar_edge : '$' ∉ l.edge := by
  unfold edge
  simp [l.junk_first.dollar]

theorem dollar_amount : '$' ∉ l.amount := by
  unfold amount link
  simp [junk_covered.dollar, l.junk_second.dollar, l.junk_third.dollar]

theorem trim_edge : trim l.edge = l.edge := by
  unfold edge
  rw [trim_eq_trimRight (by simp [isBlank]), trimRight_eq_self]
  rw [List.getLast?_append_of_ne_nil _ (by simp), List.getLast?_append_of_ne_nil _ (by decide)]
  decide

theorem amount_ne_nil : l.amount ≠ [] := by
  unfold amount
  simp

theorem last_amount : l.amount.getLast?.any isBlank = false := by
  have hcut : l.amount = (")))".toList ++ (covered ++ (l.second ++ "\n)//',)))".toList))) ++ (covered ++ l.third) := by
    unfold amount link
    simp
  rw [hcut, List.getLast?_append_of_ne_nil _ (by simp [covered])]
  exact (junk_covered.append l.junk_third).last

theorem trim_amount : trim (l.amount ++ ['\n']) = l.amount := by
  rw [trim_eq_trimRight, trimRight_concat, if_pos (by decide), trimRight_eq_self l.last_amount]
  unfold amount
  simp [isBlank]

theorem stateAfter?_edge : stateAfter? ',' .fresh l.edge = some .fresh := by
  have hopened : stateAfter? ',' .fresh "((//))\\'".toList = some ⟨0, some '\'', false⟩ := by decide +kernel
  have hclosed : stateAfter? ',' ⟨0, some '\'', false⟩ "\n)//'".toList = some .fresh := by decide +kernel
  unfold edge
  rw [stateAfter?_append, hopened, Option.bind_some, stateAfter?_append, l.junk_first.quoted, Option.bind_some, hclosed]

theorem stateAfter?_amount : stateAfter? ',' .fresh (l.amount ++ ['\n']) = some ⟨1, some '\'', false⟩ := by
  have hopened : stateAfter? ',' .fresh (")))".toList ++ covered) = some ⟨1, some '\'', false⟩ := by decide +kernel
  -- a parenthesis is open, so the comma of the link separates nothing
  have hlinked : stateAfter? ',' ⟨1, some '\'', false⟩ ("\n)//".toList ++ link) = some ⟨1, some '\'', false⟩ := by
    decide +kernel
  have hcut : l.amount ++ ['\n'] =
      (")))".toList ++ covered) ++ (l.second ++ (("\n)//".toList ++ link) ++ (l.third ++ ['\n']))) := by
    unfold amount
    simp
  rw [hcut, stateAfter?_append, hopened, Option.bind_some, stateAfter?_append, l.junk_second.quoted, Option.bind_some,
    stateAfter?_append, hlinked, Option.bind_some, stateAfter?_append, l.junk_third.quoted, Option.bind_some]
  rfl

/-- The include has two arguments. -/
theorem splitTopLevel_inside : splitTopLevel ',' l.inside = [l.edge, l.amount] := by
  have hpieces : pieces ',' .fresh l.inside = [l.edge, l.amount ++ ['\n']] := by
    have hsecond : pieces ',' .fresh (l.amount ++ ['\n']) = [l.amount ++ ['\n']] := by
      have hall := pieces_append l.stateAfter?_amount (r := []) rfl
      rwa [List.append_nil] at hall
    have hcomma : pieces ',' .fresh (',' :: (l.amount ++ ['\n'])) = [[], l.amount ++ ['\n']] := by
      rw [pieces, hsecond]
      rfl
    have hall := pieces_append l.stateAfter?_edge hcomma
    rwa [List.append_nil] at hall
  have hshown : (trim l.inside).isEmpty = false := by
    have hcut : l.inside = (l.edge ++ ',' :: l.amount) ++ ['\n'] := by
      unfold inside
      simp
    have hlast : trimRight (l.edge ++ ',' :: l.amount) = l.edge ++ ',' :: l.amount := by
      apply trimRight_eq_self
      rw [List.append_cons, List.getLast?_append_of_ne_nil _ l.amount_ne_nil]
      exact l.last_amount
    rw [trim_eq_trimRight, hcut, trimRight_concat, if_pos (by decide), hlast]
    · simp
    · unfold inside edge
      simp [isBlank]
  rw [splitTopLevel, hshown, if_neg Bool.false_ne_true, hpieces, List.map_cons, List.map_cons, trim_edge, trim_amount]
  rfl

/-! ## A round -/

/-- What the mask has behind the opening. -/
def behind : Text :=
  uncommented ("))\\'".toList ++ l.first) (uncommented (link ++ l.second) (uncommented (link ++ l.third)
    (uncommented l.remark (run .commentsAndStrings (some ')') .code l.back))))

theorem codeMask_text : codeMask l.text = l.front ++ (opening ++ l.behind) := by
  have hplain : Plain (l.front ++ opening) := by
    intro x hx
    rcases List.mem_append.1 hx with hx | hx
    · exact l.plain x hx
    · have hopening : Plain opening := by decide
      exact hopening x hx
  have hlink : ∀ {j}, Junk j → '\n' ∉ link ++ j := by
    intro j hj hmem
    have hline : '\n' ∉ link := by decide
    exact (List.mem_append.1 hmem).elim hline hj.line
  have hfirst : '\n' ∉ "))\\'".toList ++ l.first := fun hmem =>
    (List.mem_append.1 hmem).elim (by decide) l.junk_first.line
  rw [text, ← List.append_assoc, codeMask, mask, run_append_of_plain hplain, run_commented hfirst,
    run_commented (hlink l.junk_second) (by decide), run_commented (hlink l.junk_third) (by decide),
    run_commented l.line (by decide), List.append_assoc]
  · rfl
  · rw [List.getLast?_append_of_ne_nil _ (by decide)]
    decide

theorem length_inside :
    l.inside.length = l.first.length + (link ++ l.second).length + (link ++ l.third).length + 17 := by
  unfold inside edge amount link
  simp
  omega

/-- Three of the parentheses close the include. -/
theorem closingOffset?_behind : closingOffset? '(' ')' 0 ("(((".toList ++ l.behind) = some (l.inside.length + 1) := by
  have hopened : closingOffset? '(' ')' 0 ("(((".toList ++ l.behind) =
      (((closingOffset? '(' ')' 3 l.behind).map (· + 1)).map (· + 1)).map (· + 1) := rfl
  have hfirst : ("))\\'".toList ++ l.first).length = 4 + l.first.length := by
    rw [List.length_append]
    rfl
  -- the depth is three, two and one before the parentheses
  rw [hopened, behind, closingOffset?_uncommented, if_neg (by decide), closingOffset?_uncommented, if_neg (by decide),
    closingOffset?_uncommented, if_pos (by decide), length_inside]
  simp only [Option.map_some, hfirst]
  congr 1
  omega

theorem drop_behind : ("(((".toList ++ l.behind).drop (l.inside.length + 2) =
    uncommented l.remark (run .commentsAndStrings (some ')') .code l.back) := by
  have hcut : ∀ j r : Text, uncommented j r = (List.replicate (j.length + 2) ' ' ++ ['\n', ')']) ++ r := by
    simp [uncommented]
  rw [behind, hcut _ (uncommented _ _), hcut _ (uncommented _ _), hcut _ (uncommented _ _), ← List.append_assoc,
    ← List.append_assoc, ← List.append_assoc]
  apply List.drop_left'
  rw [length_inside]
  simp
  omega

/-- The include is seen. -/
theorem look_text (seen : Text) : ∃ line, Include.look l.text ⟨seen, l.front.length, opening ++ l.behind⟩ =
    .found ⟨⟨l.front.length, l.front.length + (20 + l.inside.length)⟩,
      ⟨"centering".toList, [l.edge, l.amount], none, line⟩⟩ (20 + l.inside.length) := by
  obtain ⟨line, hlook⟩ := look_opening (f := l.front) (r := commented l.remark l.back)
    l.closingOffset?_behind l.drop_behind seen
  exact ⟨line, by rw [text_eq, hlook, splitTopLevel_inside]⟩

/-- The include is the first one found. -/
theorem find_text : ∃ line more, Include.find l.text = ⟨⟨l.front.length, l.front.length + (20 + l.inside.length)⟩,
    ⟨"centering".toList, [l.edge, l.amount], none, line⟩⟩ :: more := by
  obtain ⟨line, hlook⟩ := l.look_text (l.front.reverse ++ [])
  refine ⟨line, ?_⟩
  rw [Include.find, sweep, codeMask_text, sweepFrom_skip l.quiet, Nat.zero_add]
  cases hrest : opening ++ l.behind with
  | nil => exact absurd hrest (List.append_ne_nil_of_left_ne_nil (by decide) _)
  | cons x r =>
    rw [hrest] at hlook
    rw [sweepFrom, if_neg (Nat.lt_irrefl 0), hlook]
    exact ⟨_, rfl⟩

/-- The include is replaced by declarations that write its second argument four times. -/
theorem replacement_eq (line : Nat) :
    MixinCall.replacement ⟨"centering".toList, [l.edge, l.amount], none, line⟩ = centered l.edge l.amount := by
  have hrecipe : recipes.lookup "centering".toList = some .centering := by decide +kernel
  have hedge : l.edge ≠ [] := by
    unfold edge
    simp
  unfold MixinCall.replacement MixinCall.expand?
  rw [hrecipe, Option.bind_some]
  simp [Recipe.expand, argument, normalizeArgument_eq_self l.dollar_edge, normalizeArgument_eq_self l.dollar_amount,
    hedge, l.amount_ne_nil]

theorem centered_eq : centered l.edge l.amount = "position:absolute;top:".toList ++ (l.amount ++ (";left:".toList ++
    (l.amount ++ (";transform:translate(-".toList ++ (l.amount ++ (",-".toList ++ (l.amount ++ ");".toList))))))) := by
  have hedge : ∀ name ∈ ["top".toList, "bottom".toList, "left".toList, "right".toList], l.edge ≠ name := by
    unfold edge
    simp
  unfold centered
  dsimp only
  rw [if_neg (hedge _ (by simp)), if_neg (hedge _ (by simp)), if_neg (hedge _ (by simp)), if_neg (hedge _ (by simp))]
  simp [property]

/-- What a round leaves of the text, where `tail` is what it leaves of the text behind the include. -/
def next (tail : Text) : Layers where
  front := l.front ++ "position:absolute;top:)))".toList
  first := l.second
  second := l.third ++ (";left:)))".toList ++ (covered ++ l.second))
  third := l.third ++ (";transform:translate(-)))".toList ++ (covered ++ l.second))
  remark := link ++ (l.third ++ (",-)))".toList ++ (covered ++ l.second)))
  back := "//".toList ++ (link ++ (l.third ++ (");".toList ++ tail)))
  plain := by
    intro x hx
    have hfixed : Plain "position:absolute;top:)))".toList := by decide
    exact (List.mem_append.1 hx).elim (l.plain x) (hfixed x)
  quiet hx := (List.mem_append.1 hx).elim l.quiet (by decide)
  junk_first := l.junk_second
  junk_second := l.junk_third.append (junk_left.append (junk_covered.append l.junk_second))
  junk_third := l.junk_third.append (junk_transform.append (junk_covered.append l.junk_second))
  line := by
    have hlink : '\n' ∉ link := by decide
    simp [hlink, l.junk_third.line, junk_covered.line, l.junk_second.line]

/-- The copies of the second argument bring their hidden includes into place: the first copy begins with the include
that the next round finds, and the others close it. -/
theorem text_next (tail : Text) : (l.next tail).text = l.front ++ (centered l.edge l.amount ++ tail) := by
  have hcovered : covered = opening ++ "//))\\'".toList := rfl
  rw [centered_eq]
  unfold next text amount commented link
  simp only [hcovered, String.reduceToList, List.append_assoc, List.cons_append, List.nil_append]

/-- **A round leads to a text of the same form.** -/
theorem includeRound_text : ∃ tail, includeRound l.text = (l.next tail).text := by
  obtain ⟨line, more, hfind⟩ := l.find_text
  obtain ⟨gaps, tail, hgaps, hoffsets, htext, hput⟩ := exists_interlace (fun i : Include => i.span)
    (fun i => i.call.replacement) (includes_apart l.text)
  rw [hfind] at hgaps hoffsets
  cases gaps with
  | nil => cases hgaps
  | cons g gaps =>
    -- nothing is found before the include, so the first gap is the text before it
    obtain ⟨gap, i⟩ := g
    obtain ⟨rfl, -⟩ := List.cons.inj hgaps
    obtain ⟨hgap, -⟩ := List.cons.inj hoffsets
    have hlength : gap.length = l.front.length := by simpa using congrArg Prod.fst hgap
    have hfront : l.front = gap := by
      rw [interlace, text, List.append_assoc] at htext
      exact (List.append_inj htext hlength.symm).1
    refine ⟨interlace (fun i => i.call.replacement) gaps tail, ?_⟩
    rw [text_next, hfront, ← replacement_eq, includeRound, expandRound, hput, interlace, List.append_assoc]

/-! ## All rounds -/

theorem length_next_le (tail : Text) :
    2 * (l.second.length + l.third.length + 1) ≤ (l.next tail).second.length + (l.next tail).third.length + 1 := by
  unfold next
  simp
  omega

theorem length_text_le : l.second.length + l.third.length + 1 ≤ l.text.length := by
  unfold text commented
  simp
  omega

/-- **After any number of rounds** there is a text of this form, and its comments have doubled so often. -/
theorem exists_iterate (n : Nat) : ∃ l' : Layers, includeRound^[n] l.text = l'.text ∧
    2 ^ n ≤ l'.second.length + l'.third.length + 1 := by
  induction n with
  | zero => exact ⟨l, rfl, Nat.le_add_left _ _⟩
  | succ n ih =>
    obtain ⟨l', hl', hlength⟩ := ih
    obtain ⟨tail, hround⟩ := l'.includeRound_text
    have hdoubled := l'.length_next_le tail
    refine ⟨l'.next tail, ?_, ?_⟩
    · rw [Function.iterate_succ_apply', hl', hround]
    · rw [Nat.pow_succ]
      omega

/-- **The rounds never end**: whatever their number, there is an include in the text after them. Each of them has
recorded one and has doubled the text. -/
theorem never_ends (rounds : Nat) :
    Include.find (expandRounds rounds l.text).1 ≠ [] ∧ 2 ^ rounds ≤ (expandRounds rounds l.text).1.length ∧
    rounds ≤ (expandRounds rounds l.text).2.length ∧
    ∀ found t', ¬ Runs Include.find includeRound rounds l.text found t' := by
  have hfound : ∀ n, Include.find (includeRound^[n] l.text) ≠ [] := by
    intro n
    obtain ⟨l', hl', -⟩ := l.exists_iterate n
    obtain ⟨line, more, hfind⟩ := l'.find_text
    rw [hl', hfind]
    exact List.cons_ne_nil _ _
  obtain ⟨htext, hcalls⟩ := roundsUpTo_of_found fun k (_ : k < rounds) => hfound k
  obtain ⟨l', hl', hlength⟩ := l.exists_iterate rounds
  have hcontained := l'.length_text_le
  rw [expandRounds_eq_upTo, htext, List.length_map]
  refine ⟨hfound rounds, ?_, hcalls, fun _ _ => not_runs hfound⟩
  rw [hl']
  omega

end Layers

/-- The shortest such text. -/
def endlessSheet : Text :=
  ("@include centering(((//))\\'\n)//',)))@include centering(((//))\\'\n)//',)))" ++
    "@include centering(((//))\\'\n)//',)))\n)").toList

theorem endlessSheet_never_ends (rounds : Nat) : Include.find (expandRounds rounds endlessSheet).1 ≠ [] := by
  have hlayers : endlessSheet = Layers.text
      ⟨[], [], [], [], "',)))".toList, [], by decide, by decide, .nil, .nil, .nil, by decide⟩ := by decide +kernel
  rw [hlayers]
  exact (Layers.never_ends _ rounds).1

end Flatsheet.Style
