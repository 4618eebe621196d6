import Flatsheet.Proofs.Repair.SecondCall

/-!
# `Proofs.Repair.CallsLeft` — the mixin calls that the aggressive repair leaves

After the aggressive repair a call can stand in the code of a file for a few reasons only (`Left`, `calls_left`):

* the line starts with a comment, so that no repair touches it;
* between the keyword and the name there is a blank other than a space or a tab, a line feed for instance;
* the call stands behind the statement that is taken out of use: the repair takes one statement out of a line;
* the comment mark that is put in stands inside a string or a block comment that begins before it, so that it opens
  nothing;
* the call has come about by converting a reference.

Everywhere else the mark opens a comment. A line comment goes to the end of the line (`blank_to_end`), and the block
comment hides all of the statement (`run_comment`).
-/

namespace Flatsheet.Repair

open Text Style Mask

variable {a f l l' m r t u : Text} {x : Char} {i j k n start : Nat} {before : Option Char} {s : State}
  {pending : Option OpenStatement}

/-! ## Comments to the end of a line -/

/-- The state is inside a string or a block comment. -/
def Inside : State → Prop
  | .blockComment | .closing | .string _ | .escaped _ => True
  | _ => False

/-- The mark that opens a block comment ends in a star. -/
theorem next_opening_block {c : Char} {y : Option Char} (h : s.next before c y = .opening true) : y = some '*' := by
  cases s with
  | code =>
    rw [State.next] at h
    split at h
    · next hmark =>
      simp only [Bool.and_eq_true, decide_eq_true_eq] at hmark
      exact hmark.2
    · split at h
      · cases h
      · split at h <;> cases h
  | opening block => cases block <;> cases h
  | lineComment | blockComment =>
    rw [State.next] at h
    split at h <;> cases h
  | string q =>
    rw [State.next] at h
    split at h
    · cases h
    · split at h <;> cases h
  | closing | escaped q => cases h

theorem after_opening_block {y : Option Char} (h : State.after none .code y a = .opening true) : y = some '*' := by
  rcases List.eq_nil_or_concat a with rfl | ⟨a, c, rfl⟩
  · cases h
  · rw [List.concat_eq_append, after_concat] at h
    exact next_opening_block h

/-- Outside strings and block comments a slash is read in code or in a line comment. -/
theorem state_before_slash (h : ¬ Inside (State.after none .code (some '/') a)) :
    State.after none .code (some '/') a = .code ∨ State.after none .code (some '/') a = .lineComment ∨
      State.after none .code (some '/') a = .opening false := by
  cases hs : State.after none .code (some '/') a with
  | code => exact .inl rfl
  | lineComment => exact .inr (.inl rfl)
  | opening block =>
    cases block with
    | true => cases after_opening_block hs
    | false => exact .inr (.inr rfl)
  | blockComment | closing | string q | escaped q =>
    rw [hs] at h
    exact absurd trivial h

theorem blank_of_lineComment (hline : '\n' ∉ m) (hj : j < m.length) :
    (run .commentsAndStrings before .lineComment (m ++ r))[j]? = some ' ' := by
  obtain ⟨-, hpiece⟩ : State.after before .lineComment r.head? m = .lineComment ∧
      piece .commentsAndStrings before .lineComment r.head? m = List.replicate m.length ' ' := inside_line_comment hline
  rw [run_append, hpiece, List.getElem?_append_left (by simpa using hj), List.getElem?_replicate, if_pos hj]

theorem blank_of_opening (hline : '\n' ∉ m) (hj : j < m.length) :
    (run .commentsAndStrings before (.opening false) (m ++ r))[j]? = some ' ' := by
  cases m with
  | nil => cases hj
  | cons c m =>
    rw [List.mem_cons, not_or] at hline
    have hblank : State.blanks .commentsAndStrings (.opening false) c .lineComment = true := by
      simp [State.blanks, Ne.symm hline.1]
    have hnext : (State.opening false).next before c (m ++ r).head? = .lineComment := rfl
    rw [List.cons_append, run, hnext, hblank, if_pos rfl]
    cases j with
    | zero => rfl
    | succ j => exact blank_of_lineComment hline.2 (Nat.lt_of_succ_lt_succ hj)

/-- **A line comment mark in code blanks what is behind it on its line**, unless it stands in an address. -/
theorem blank_of_slashes (hcolon : before ≠ some ':') (hline : '\n' ∉ m) (hj : j < m.length) (hmark : "//".toList <+: m) :
    (run .commentsAndStrings before .code (m ++ r))[j]? = some ' ' := by
  obtain ⟨m, rfl⟩ := hmark
  have hnext : State.code.next before '/' (some '/') = .opening false := by simp [State.next, hcolon]
  show (run .commentsAndStrings before .code ('/' :: ('/' :: m ++ r)))[j]? = some ' '
  rw [run, List.cons_append, List.head?_cons, hnext]
  cases j with
  | zero => rfl
  | succ j =>
    have hrest : '\n' ∉ '/' :: m := fun hmem => hline (List.mem_cons_of_mem _ hmem)
    exact blank_of_opening hrest (Nat.lt_of_succ_lt_succ hj)

/-- The mask of what stands behind a piece of text. -/
theorem getElem?_codeMask_append (f t : Text) (j : Nat) : (codeMask (f ++ t))[f.length + j]? =
    (run .commentsAndStrings f.getLast? (State.after none .code t.head? f) t)[j]? := by
  have hlength : (piece .commentsAndStrings none .code t.head? f).length = f.length := length_piece f
  rw [codeMask, mask, run_append, List.getElem?_append_right (by omega), hlength, Nat.add_sub_cancel_left,
    Option.or_none]

/-- **Behind a mark for a line comment the rest of the line is blank**, and in a line comment that begins before. -/
theorem blank_to_end (hline : '\n' ∉ m) (hj : j < m.length) (h : State.after none .code m.head? f = .lineComment ∨
      State.after none .code m.head? f = .opening false ∨
      State.after none .code m.head? f = .code ∧ f.getLast? ≠ some ':' ∧ "//".toList <+: m) :
    (codeMask (f ++ (m ++ r)))[f.length + j]? = some ' ' := by
  obtain ⟨c, m', rfl⟩ : ∃ c m', m = c :: m' := List.exists_cons_of_length_pos (Nat.lt_of_le_of_lt (Nat.zero_le j) hj)
  have hhead : (c :: m' ++ r).head? = (c :: m').head? := rfl
  rw [getElem?_codeMask_append, hhead]
  rcases h with h | h | ⟨h, hcolon, hmark⟩
  · rw [h]
    exact blank_of_lineComment hline hj
  · rw [h]
    exact blank_of_opening hline hj
  · rw [h]
    exact blank_of_slashes hcolon hline hj hmark

/-! ## Calls that are left -/

/-- A statement is taken out of use, from the beginning of the line or from its first call on. -/
structure TakenOut (s : OpenStatement) (start : Nat) (l l' : Text) : Prop where
  begins : start = 0 ∨ includeAt? l [] = some start
  made : l' = (s.disable start l).1

/-- The offset of the comment mark that is put in for a stretch of a line. -/
def markAt (l : Text) (start stop : Nat) : Nat :=
  if isBlankLine (l.take start) && isBlankLine (l.drop stop) then indentation l else start

/-- **Why a call is left** at an offset of the line that the repair has made of a line, behind the text before. -/
inductive Left (u l l' : Text) (k : Nat) : Prop
  /-- The line is protected. -/
  | untouched (spared : isProtected l = true) (same : l' = l)
  /-- The call stands behind the statement that is taken out. -/
  | behind (s : OpenStatement) (start : Nat) (taken : TakenOut s start l l')
      (place : l'.length ≤ k + (l.drop (s.stop start l)).length)
  /-- The comment mark that is put in stands inside a string or a block comment. -/
  | enclosed (s : OpenStatement) (start : Nat) (taken : TakenOut s start l l')
      (inside : Inside (State.after none .code (some '/') (u ++ l'.take (markAt l start (s.stop start l)))))
  /-- A reference stood where the name is. -/
  | converted (i : Nat) (made : l' = (convertReferences l).1) (exposed : ExposedAt l i) (awaits : AwaitsName (l.take i))

/-- A call begins with the byte that its keyword begins with. -/
theorem at_of_calls (h : callsHere isSpaceOrTab (t.drop k) = true) : t[k]? = some '@' := by
  obtain ⟨w, r, hcut, hhead⟩ := exists_head h
  obtain ⟨between, x, rfl, -⟩ := hhead.parts
  rw [← List.head?_drop, hcut]
  rfl

/-- **Behind a line comment mark no call is left**, unless the mark stands inside a string or a block comment. -/
theorem left_of_line {o : OpenStatement} (h : TakenOut o start l l') (hu : u.getLast? ≠ some ':') (hline : '\n' ∉ l')
    (hcalls : callsHere isSpaceOrTab (l'.drop k) = true)
    (hcode : (codeMask (u ++ (l' ++ r)))[u.length + k]? = some '@')
    (hform : (isBlankLine (l.take start) && isBlankLine (l.drop (o.stop start l))) = true) (hl : l' = commentOut l) :
    Left u l l' k := by
  have hat := at_of_calls hcalls
  have hk : k < l'.length := (List.getElem?_eq_some_iff.1 hat).1
  have hmark : markAt l start (o.stop start l) = (l.takeWhile isSpaceOrTab).length := if_pos hform
  -- the line is not all spaces and tabs, and the call stands behind those at its beginning
  have hspaces : ∀ w : Text, (∀ c ∈ w, isSpaceOrTab c = true) → '@' ∉ w := fun w hw hmem => by cases hw '@' hmem
  have hcut : l' = l.takeWhile isSpaceOrTab ++ ("// ".toList ++ l.dropWhile isSpaceOrTab) := by
    rw [hl, commentOut]
    split
    · next hall =>
      rw [hl, commentOut, if_pos hall] at hat
      exact absurd (List.mem_of_getElem? hat) (hspaces l (List.all_eq_true.1 hall))
    · exact List.append_assoc ..
  have hindent : '@' ∉ l.takeWhile isSpaceOrTab := hspaces _ (List.all_eq_true.1 List.all_takeWhile)
  obtain ⟨j, rfl⟩ : ∃ j, k = (l.takeWhile isSpaceOrTab).length + j := by
    apply Nat.exists_eq_add_of_le
    by_contra hlt
    rw [hcut, List.getElem?_append_left (Nat.lt_of_not_le hlt)] at hat
    exact hindent (List.mem_of_getElem? hat)
  by_cases hinside : Inside (State.after none .code (some '/') (u ++ l.takeWhile isSpaceOrTab))
  · refine .enclosed o start h ?_
    rw [hmark, hcut, List.take_left]
    exact hinside
  · exfalso
    have hend : (u ++ l.takeWhile isSpaceOrTab).getLast? ≠ some ':' := by
      rw [List.getLast?_append]
      intro hlast
      rcases Option.or_eq_some_iff.1 hlast with hlast | ⟨-, hlast⟩
      · cases List.all_eq_true.1 List.all_takeWhile ':' (List.mem_of_getLast? hlast)
      · exact hu hlast
    have hblank : (codeMask (u ++ l.takeWhile isSpaceOrTab ++ ("// ".toList ++ l.dropWhile isSpaceOrTab ++ r)))[
        (u ++ l.takeWhile isSpaceOrTab).length + j]? = some ' ' := by
      apply blank_to_end
      · exact fun hmem => hline (hcut ▸ List.mem_append_right _ hmem)
      · rw [hcut, List.length_append] at hk
        omega
      · rcases state_before_slash hinside with hs | hs | hs
        · exact .inr (.inr ⟨hs, hend, [' '] ++ l.dropWhile isSpaceOrTab, rfl⟩)
        · exact .inl hs
        · exact .inr (.inl hs)
    rw [hcut, List.append_assoc, ← List.append_assoc u, ← Nat.add_assoc, ← List.length_append, hblank] at hcode
    cases hcode

theorem TakenOut.start_le {o : OpenStatement} (h : TakenOut o start l l') : start ≤ l.length := by
  rcases h.begins with rfl | hcall
  · exact Nat.zero_le _
  · exact Nat.le_of_lt (List.getElem?_eq_some_iff.1 (at_of_calls (includeAt?_eq_some_iff.1 hcall).1)).1

/-- Before the block comment there is no call: it would have been found first. -/
theorem TakenOut.le_of_calls {o : OpenStatement} {inside back : Text} (h : TakenOut o start l l')
    (hl : l' = l.take start ++ comment inside ++ back) (hcalls : callsHere isSpaceOrTab (l'.drop k) = true) :
    start ≤ k := by
  by_contra hlt
  have hstart : (l.take start).length = start := List.length_take_of_le h.start_le
  rcases h.begins with rfl | hcall
  · exact hlt (Nat.zero_le k)
  · have hcut : l'.drop k = (l.take start).drop k ++ '/' :: ('*' :: inside ++ "*/".toList ++ back) := by
      rw [hl, List.append_assoc, List.drop_append_of_le_length (by omega)]
      rfl
    have hne : (l.take start).drop k ≠ [] := by
      rw [ne_eq, List.drop_eq_nil_iff]
      omega
    have hline : (l.take start).drop k ++ l.drop start = l.drop k := by
      rw [← List.drop_append_of_le_length (by omega), List.take_append_drop]
    rw [hcut] at hcalls
    have hearlier := callsHere_of_append (by decide) rfl hne hcalls (l.drop start)
    rw [hline, (includeAt?_eq_some_iff.1 hcall).2 k (Nat.lt_of_not_le hlt)] at hearlier
    cases hearlier

/-- A block comment that opens in code is blank. -/
theorem blank_of_comment {inside : Text} (hopen : State.after none .code (some '/') f = .code)
    (hinside : occurrences "*/".toList inside = 0) (hj : j < (comment inside).length) :
    (codeMask (f ++ (comment inside ++ r)))[f.length + j]? ≠ some '@' := by
  intro hat
  have hlength : (blanked (comment inside)).length = (comment inside).length := List.length_map _
  have hhead : (comment inside ++ r).head? = some '/' := rfl
  rw [getElem?_codeMask_append, hhead, hopen, run_comment hinside, List.getElem?_append_left (by omega), blanked,
    List.getElem?_map] at hat
  obtain ⟨c, -, hc⟩ := Option.map_eq_some_iff.1 hat
  split at hc
  · next hfeed =>
    rw [hfeed] at hc
    cases hc
  · cases hc

/-- **A block comment leaves no call but behind it**, unless it stands inside a string or a block comment. -/
theorem left_of_block {o : OpenStatement} (h : TakenOut o start l l') (hline : '\n' ∉ l')
    (hcalls : callsHere isSpaceOrTab (l'.drop k) = true)
    (hcode : (codeMask (u ++ (l' ++ r)))[u.length + k]? = some '@')
    (hform : ¬ (isBlankLine (l.take start) && isBlankLine (l.drop (o.stop start l))) = true)
    (hl : l' = l.take start ++ comment (quote l start (o.stop start l)) ++ l.drop (o.stop start l)) :
    Left u l l' k := by
  have hat := at_of_calls hcalls
  have hk : k < l'.length := (List.getElem?_eq_some_iff.1 hat).1
  have hmark : markAt l start (o.stop start l) = start := if_neg hform
  have hstart : (l.take start).length = start := List.length_take_of_le h.start_le
  generalize hquote : quote l start (o.stop start l) = inside at hl
  have hinside : occurrences "*/".toList inside = 0 := hquote ▸ occurrences_quote l start (o.stop start l)
  obtain ⟨j, rfl⟩ : ∃ j, k = start + j := Nat.exists_eq_add_of_le (h.le_of_calls hl hcalls)
  by_cases hin : Inside (State.after none .code (some '/') (u ++ l.take start))
  · refine .enclosed o start h ?_
    rw [hmark, hl, List.append_assoc, List.take_left' hstart]
    exact hin
  · have hplace : u ++ (l' ++ r) = u ++ l.take start ++ (comment inside ++ l.drop (o.stop start l) ++ r) := by
      rw [hl]
      simp only [List.append_assoc]
    have hoffset : u.length + (start + j) = (u ++ l.take start).length + j := by
      rw [List.length_append, hstart, Nat.add_assoc]
    have hlength : l'.length = start + (comment inside ++ l.drop (o.stop start l)).length := by
      rw [hl, List.append_assoc, List.length_append, hstart]
    rw [hplace, hoffset] at hcode
    have hline' : '\n' ∉ comment inside ++ l.drop (o.stop start l) := by
      intro hmem
      apply hline
      rw [hl, List.append_assoc]
      exact List.mem_append_right _ hmem
    -- in a line comment the call would be blank
    have hopen : State.after none .code (some '/') (u ++ l.take start) = .code := by
      by_contra hnot
      have hblank : (codeMask (u ++ l.take start ++ (comment inside ++ l.drop (o.stop start l) ++ r)))[
          (u ++ l.take start).length + j]? = some ' ' := by
        apply blank_to_end hline' (by omega)
        rcases state_before_slash hin with hs | hs | hs
        · exact absurd hs hnot
        · exact .inl hs
        · exact .inr (.inl hs)
      rw [hblank] at hcode
      cases hcode
    refine .behind o start h ?_
    by_contra hbefore
    have hj : j < (comment inside).length := by
      rw [List.length_append] at hlength
      omega
    rw [List.append_assoc (comment inside)] at hcode
    exact blank_of_comment hopen hinside hj hcode

/-! ## Lines -/

theorem mem_breakCommentEnds (h : x ∈ breakCommentEnds t) : x ∈ t ∨ x = ' ' := by
  fun_induction breakCommentEnds t with
  | case1 r ih =>
    simp only [List.mem_cons] at h ⊢
    tauto
  | case2 c r _ ih =>
    rw [List.mem_cons] at h ⊢
    tauto
  | case3 => exact .inl h

theorem mem_of_mem_trim (h : x ∈ trim t) : x ∈ t := by
  rw [trim, trimRight, List.mem_reverse] at h
  have hleft : x ∈ trimLeft t := List.mem_reverse.1 ((List.dropWhile_sublist _).mem h)
  exact (List.dropWhile_sublist _).mem hleft

theorem mem_commentOut (h : x ∈ commentOut l) : x ∈ l ∨ x ∈ "/* ".toList := by
  rw [commentOut] at h
  split at h
  · exact .inl h
  · rw [List.mem_append, List.mem_append] at h
    have hmark : ∀ c ∈ "// ".toList, c ∈ "/* ".toList := by simp
    rcases h with (h | h) | h
    · exact .inl ((List.takeWhile_sublist _).mem h)
    · exact .inr (hmark x h)
    · exact .inl ((List.dropWhile_sublist _).mem h)

/-- Besides the bytes of the line there are only those of the comment marks. -/
theorem mem_disableSpan {stop : Nat} (h : x ∈ disableSpan l start stop) : x ∈ l ∨ x ∈ "/* ".toList := by
  rw [disableSpan_eq] at h
  split at h
  · exact mem_commentOut h
  · rw [List.mem_append, List.mem_append, comment, List.mem_append, List.mem_append, quote, List.mem_append,
      List.mem_append] at h
    have hmarks : ∀ c ∈ "/* ".toList ++ "*/".toList, c ∈ "/* ".toList := by simp
    rcases h with (h | (h | (h | h) | h) | h) | h
    · exact .inl (List.mem_of_mem_take h)
    · exact .inr (List.mem_append_left [' '] h)
    · exact .inr (List.mem_append_right ['/', '*'] h)
    · rcases mem_breakCommentEnds h with h | rfl
      · exact .inl (List.mem_of_mem_drop (List.mem_of_mem_take (mem_of_mem_trim h)))
      · exact .inr (by decide)
    · exact .inr (List.mem_append_right ['/', '*'] h)
    · exact .inr (hmarks x (List.mem_append_right _ h))
    · exact .inl (List.mem_of_mem_drop h)

/-- Besides the bytes of the text there are only those around the names in expressions. -/
theorem mem_converted (h : x ∈ (convertReferences t).1) : x ∈ t ∨ x ∈ "var(--)".toList := by
  obtain ⟨pieces, tail, htext, hresult, -⟩ := exists_cut t
  rw [hresult] at h
  rw [htext]
  clear htext hresult
  induction pieces with
  | nil => exact .inl h
  | cons p pieces ih =>
    obtain ⟨front, name⟩ := p
    rw [weave, List.mem_append, List.mem_append, mem_expression] at h
    rw [weave, List.mem_append, List.mem_append]
    rcases h with (h | h | h) | h
    · exact .inl (.inl (.inl h))
    · exact .inr h
    · exact .inl (.inl (.inr (List.mem_cons_of_mem _ h)))
    · exact (ih h).imp_left .inr

/-- **A line stays one line.** -/
theorem newline_repairLine (h : '\n' ∉ l) : '\n' ∉ (repairLine (fun _ => fixAnyLine) pending 0 l).1 := by
  -- none of the three things that are done to a line puts a line feed in
  have hdisabled : ∀ (o : OpenStatement) start, '\n' ∉ (o.disable start l).1 := by
    intro o start hmem
    rw [disable_line] at hmem
    rcases mem_disableSpan hmem with hmem | hmem
    · exact h hmem
    · exact absurd hmem (by decide)
  have hcommented : '\n' ∉ commentOut l := by
    intro hmem
    rcases mem_commentOut hmem with hmem | hmem
    · exact h hmem
    · exact absurd hmem (by decide)
  have hconverted : '\n' ∉ (convertReferences l).1 := by
    intro hmem
    rcases mem_converted hmem with hmem | hmem
    · exact h hmem
    · exact absurd hmem (by decide)
  cases pending with
  | some o =>
    rw [repairLine]
    split
    · exact h
    · exact hdisabled o 0
  | none =>
    rw [repairLine, fixAnyLine]
    cases hp : isProtected l with
    | true => exact h
    | false =>
      rw [if_neg Bool.false_ne_true]
      cases hcall : includeAt? l [] with
      | some k => exact hdisabled _ k
      | none =>
        dsimp only
        cases l.contains '{' || l.contains '}' <;> cases callsHelper l <;> cases hasVariable l <;>
          first | exact h | exact hcommented | exact hconverted

/-- A comment mark before a line makes no call. -/
theorem calling_commentOut (h : Calling (commentOut l)) : Calling l := by
  have hindent : '@' ∉ l.takeWhile isSpaceOrTab := by
    intro hmem
    cases List.all_eq_true.1 List.all_takeWhile '@' hmem
  rw [commentOut] at h
  split at h
  · exact h
  · rw [← List.takeWhile_append_dropWhile (p := isSpaceOrTab) (l := l), calling_append hindent]
    rwa [calling_append (by simpa using hindent)] at h

/-- **Why a call is left on a line** that the repair has gone through. -/
theorem left_of_repaired (hl : l' = (repairLine (fun _ => fixAnyLine) pending 0 l).1) (hu : u.getLast? ≠ some ':')
    (hline : '\n' ∉ l') (hcalls : callsHere isSpaceOrTab (l'.drop k) = true)
    (hcode : (codeMask (u ++ (l' ++ r)))[u.length + k]? = some '@') : Left u l l' k := by
  -- a call that is left where one was taken out of use, with its line or in a block comment
  have htaken : ∀ o start, TakenOut o start l l' → Left u l l' k := by
    intro o start h
    have hmade := h.made
    rw [disable_line, disableSpan_eq] at hmade
    split at hmade
    · next hform => exact left_of_line h hu hline hcalls hcode hform hmade
    · next hform => exact left_of_block h hline hcalls hcode hform hmade
  cases hp : isProtected l with
  | true =>
    refine .untouched hp ?_
    rw [hl]
    exact repairLine_protected pending hp (fixAnyLine_protected hp)
  | false =>
    cases pending with
    | some o =>
      rw [repairLine, hp, if_neg Bool.false_ne_true] at hl
      exact htaken o 0 ⟨.inl rfl, hl⟩
    | none =>
      have hfixed : l' = fixedLine l := hl
      cases hcall : includeAt? l [] with
      | some start =>
        obtain ⟨o, hdisabled⟩ := fixedLine_of_call hp hcall
        exact htaken o start ⟨.inr hcall, by rw [hfixed, hdisabled, disable_line]⟩
      | none =>
        -- no call was on the line, so the conversion of its references has made one
        have hquiet : ¬ Calling l := includeAt?_eq_none_iff.1 hcall
        have hcalling : Calling l' := ⟨k, hcalls⟩
        by_cases hbrace : Structural l
        · rw [fixedLine_of_structural hp hcall hbrace] at hfixed
          rw [hfixed, calling_converted_iff hcall] at hcalling
          obtain ⟨i, hexposed, hawaits⟩ := hcalling
          exact .converted i hfixed hexposed hawaits
        · rcases fixedLine_of_flat hcall hbrace with hflat | hflat
          · rw [hfixed, hflat] at hcalling
            exact absurd hcalling hquiet
          · rw [hfixed, hflat] at hcalling
            exact absurd (calling_commentOut hcalling) hquiet

/-! ## Files -/

/-- Between the keyword with which the text begins and the name there is a blank other than a space or a tab. -/
def Parted (t : Text) : Prop :=
  ∃ between, "@include".toList ++ between <+: t ∧ (∀ x ∈ between, isBlank x = true) ∧ ∃ x ∈ between, isSpaceOrTab x = false

theorem getElem?_repairLines {ls : List Text} (h : (repairLines (fun _ => fixAnyLine) pending i ls).1[n]? = some l') :
    ∃ l p, ls[n]? = some l ∧ l' = (repairLine (fun _ => fixAnyLine) p 0 l).1 := by
  induction ls generalizing pending i n with
  | nil => cases h
  | cons l ls ih =>
    cases n with
    | zero => exact ⟨l, pending, rfl, (Option.some.inj h).symm⟩
    | succ n => exact ih h

/-- A call has such a blank, or it is one for the repair. -/
theorem parted_or_calls (h : callsHere isBlank t = true) : Parted t ∨ callsHere isSpaceOrTab t = true := by
  obtain ⟨w, r, rfl, between, x, rfl, hbetween, hx⟩ := exists_head h
  by_cases hgap : ∀ c ∈ between, isSpaceOrTab c = true
  · have hhead : Head isSpaceOrTab ("@include".toList ++ between ++ [x]) := ⟨between, x, rfl, hgap, hx⟩
    exact .inr (hhead.callsHere r)
  · push Not at hgap
    obtain ⟨c, hc, hother⟩ := hgap
    refine .inl ⟨between, ?_, hbetween, c, hc, Bool.eq_false_iff.2 hother⟩
    rw [List.append_assoc]
    exact List.prefix_append _ _

/-- **A call in a file stands on one of its lines.** -/
theorem call_on_line {c : Candidate} {p : Nat} (hfeed : ∀ l ∈ c.lines, '\n' ∉ l)
    (hcalls : callsHere isSpaceOrTab (c.content.drop p) = true) : ∃ front l back k r, c.lines = front ++ l :: back ∧
      p = (ended front).length + k ∧ k < l.length ∧ callsHere isSpaceOrTab (l.drop k) = true ∧
      c.content = ended front ++ (l ++ r) := by
  have hp : p < c.content.length := (List.getElem?_eq_some_iff.1 (at_of_calls hcalls)).1
  have hne : c.lines ≠ [] := by
    intro hnil
    rw [Candidate.content, hnil] at hp
    cases hp
  have hwhole : lines c.content = c.lines := lines_unlines hne hfeed
  obtain ⟨front, l, back, k, hcut, hplace, hk⟩ := exists_line c.content (Nat.le_of_lt hp)
  obtain ⟨r, hcontent, hend⟩ := eq_of_lines hcut
  have hdrop : c.content.drop p = l.drop k ++ r := by
    rw [hcontent, hplace, List.drop_length_add_append, List.drop_append_of_le_length hk]
  rw [hdrop] at hcalls
  have hlt : k < l.length := by
    apply Nat.lt_of_le_of_ne hk
    rintro rfl
    rw [List.drop_length, List.nil_append] at hcalls
    rcases hend with rfl | ⟨r', rfl⟩ <;> cases hcalls
  refine ⟨front, l, back, k, r, hwhole ▸ hcut, hplace, hlt, ?_, hcontent⟩
  rcases hend with rfl | ⟨r', rfl⟩
  · rwa [List.append_nil] at hcalls
  · -- no call goes on behind the end of its line
    have hrest : l.drop k ≠ [] := by
      rw [ne_eq, List.drop_eq_nil_iff]
      omega
    have hshort := callsHere_of_append (by decide) rfl hrest hcalls []
    rwa [List.append_nil] at hshort

/-- **A call that is left in the code of a file** after the aggressive repair has a blank other than a space or a tab
between keyword and name, or is left on its line for one of the reasons. -/
theorem calls_left {files : List Candidate} (hlines : ∀ c ∈ files, ∀ l ∈ c.lines, '\n' ∉ l) {c c' : Candidate}
    (hc : files[i]? = some c) (hc' : (fixAggressively files).1[i]? = some c') {p : Nat}
    (hcalls : callsHere isBlank (c'.content.drop p) = true) (hcode : (codeMask c'.content)[p]? = some '@') :
    Parted (c'.content.drop p) ∨ ∃ n l l' k, c.lines[n]? = some l ∧ c'.lines[n]? = some l' ∧
      p = (ended (c'.lines.take n)).length + k ∧ k < l'.length ∧ Left (ended (c'.lines.take n)) l l' k := by
  refine (parted_or_calls hcalls).imp_right fun hcalls => ?_
  have hrepaired : c' = (fixCandidate c).1 := by
    rw [fixAggressively_eq, List.getElem?_map, hc] at hc'
    exact (Option.some.inj hc').symm
  have hmade : ∀ {n : Nat} {l' : Text}, c'.lines[n]? = some l' →
      ∃ l p, c.lines[n]? = some l ∧ l' = (repairLine (fun _ => fixAnyLine) p 0 l).1 := by
    intro n l' h
    rw [hrepaired] at h
    exact getElem?_repairLines h
  have hfeed : ∀ l' ∈ c'.lines, '\n' ∉ l' := by
    intro l' hl'
    obtain ⟨n, hn⟩ := List.mem_iff_getElem?.1 hl'
    obtain ⟨l, q, hl, rfl⟩ := hmade hn
    exact newline_repairLine (hlines c (List.mem_of_getElem? hc) l (List.mem_of_getElem? hl))
  obtain ⟨front, l', back, k, r, hcut, hplace, hk, hcalls, hcontent⟩ := call_on_line hfeed hcalls
  have hn : c'.lines[front.length]? = some l' := by
    rw [hcut, List.getElem?_append_right (Nat.le_refl _), Nat.sub_self]
    rfl
  have htake : c'.lines.take front.length = front := by rw [hcut, List.take_left]
  obtain ⟨l, q, hl, hrepair⟩ := hmade hn
  -- the line before ends in a line feed, so no address runs into this one
  have hcolon : (ended front).getLast? ≠ some ':' := by
    rcases List.eq_nil_or_concat front with rfl | ⟨front, m, rfl⟩
    · nofun
    · rw [List.concat_eq_append, ended_concat, ← List.append_assoc, List.getLast?_concat]
      decide
  refine ⟨front.length, l, l', k, hl, hn, by rw [htake, hplace], hk, ?_⟩
  rw [htake]
  rw [hcontent, hplace] at hcode
  exact left_of_repaired hrepair hcolon (hfeed l' (List.mem_of_getElem? hn)) hcalls hcode

/-- A file with two calls on a line. -/
def calledTwice : Candidate :=
  ⟨"a.scss".toList, "a.scss".toList, "a.css".toList, [], [".a \x7b @include x; @include y; \x7d".toList, []], false⟩

/-- The file after the aggressive repair. -/
def calledTwiceRepaired : Candidate :=
  { calledTwice with lines := [".a \x7b /* @include x; */ @include y; \x7d".toList, []], dirty := true }

theorem calledTwice_left :
    ((∀ c ∈ [calledTwice], ∀ l ∈ c.lines, '\n' ∉ l) ∧ [calledTwice][0]? = some calledTwice ∧
      (fixAggressively [calledTwice]).1[0]? = some calledTwiceRepaired ∧
      callsHere isBlank (calledTwiceRepaired.content.drop 23) = true ∧
      (codeMask calledTwiceRepaired.content)[23]? = some '@') ∧
    (Parted (calledTwiceRepaired.content.drop 23) ∨ ∃ n l l' k, calledTwice.lines[n]? = some l ∧
      calledTwiceRepaired.lines[n]? = some l' ∧ 23 = (ended (calledTwiceRepaired.lines.take n)).length + k ∧
      k < l'.length ∧ Left (ended (calledTwiceRepaired.lines.take n)) l l' k) := by
  have hlines : ∀ c ∈ [calledTwice], ∀ l ∈ c.lines, '\n' ∉ l := by decide
  have hrepaired : (fixAggressively [calledTwice]).1[0]? = some calledTwiceRepaired := by decide +kernel
  have hcalls : callsHere isBlank (calledTwiceRepaired.content.drop 23) = true := by decide +kernel
  have hcode : (codeMask calledTwiceRepaired.content)[23]? = some '@' := by decide +kernel
  exact ⟨⟨hlines, rfl, hrepaired, hcalls, hcode⟩, calls_left hlines rfl hrepaired hcalls hcode⟩

/-- **Of two calls on a line one is left**, in code and with nothing but a space between keyword and name. -/
theorem second_call_on_line_left :
    (fixAggressively [calledTwice]).1 = [calledTwiceRepaired] ∧
    callsHere isSpaceOrTab (calledTwiceRepaired.content.drop 23) = true ∧
    (codeMask calledTwiceRepaired.content)[23]? = some '@' := by
  decide +kernel

end Flatsheet.Repair
