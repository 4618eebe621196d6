import Flatsheet.Proofs.Repair.Calls
import Flatsheet.Proofs.Repair.Treatment
import Flatsheet.Proofs.Text.Shelter

/-!
# `Proofs.Repair.Disabling` — reading a line of which something is taken out of use

What is taken out of use ends up in a comment. A line comment mark takes in the rest of its line
(`reads_commentOut`), and the block comment around a statement takes in the statement and nothing else
(`reads_wrapped`), if the mark opens a comment where it is put in and the statement ends outside comments and strings.
-/

namespace Flatsheet.Repair

open Text Style Mask

variable {a b f l l' m r t : Text} {before ahead : Option Char} {s : State} {c : Char} {u v : List (Char × Zone)}

/-! ## Comments read byte by byte -/

/-- The bytes of a text, all in one zone. -/
def allIn (z : Zone) (t : Text) : List (Char × Zone) := t.map (·, z)

theorem allIn_append (z : Zone) (a b : Text) : allIn z (a ++ b) = allIn z a ++ allIn z b := List.map_append

/-- A comment has no braces. -/
theorem net_comment (t : Text) : net (allIn .comment t) = 0 := by
  apply net_eq_zero
  intro b hb hcode
  obtain ⟨c, -, rfl⟩ := List.mem_map.1 hb
  cases hcode

/-- **Inside a comment to the end of the line** everything is comment. -/
theorem zoned_lineComment (hline : '\n' ∉ a) : zoned before .lineComment ahead a = allIn .comment a ∧
    State.after before .lineComment ahead a = .lineComment := by
  induction a generalizing before with
  | nil => exact ⟨rfl, rfl⟩
  | cons c r ih =>
    rw [List.mem_cons, not_or] at hline
    have hc : c ≠ '\n' := Ne.symm hline.1
    have hnext : State.lineComment.next before c (r.head?.or ahead) = .lineComment := if_neg hc
    have hzone : State.lineComment.zone c .lineComment = .comment := by simp [State.zone, State.blanks, hc]
    obtain ⟨hrest, hafter⟩ : zoned (some c) .lineComment ahead r = allIn .comment r ∧
        State.after (some c) .lineComment ahead r = .lineComment := ih hline.2
    rw [zoned, State.after, hnext, hzone, hrest, hafter]
    exact ⟨rfl, rfl⟩

/-- **Inside a block comment** everything is comment up to the mark that closes it. -/
theorem zoned_blockComment (hinside : occurrences "*/".toList a = 0) (hline : '\n' ∉ a)
    (hend : ¬ (a.getLast? = some '*' ∧ ahead = some '/')) : zoned before .blockComment ahead a = allIn .comment a ∧
    State.after before .blockComment ahead a = .blockComment := by
  induction a generalizing before with
  | nil => exact ⟨rfl, rfl⟩
  | cons c r ih =>
    rw [List.mem_cons, not_or] at hline
    obtain ⟨hnext, hclosed, hlast⟩ := blockComment_step before hinside hend
    have hzone : State.blockComment.zone c .blockComment = .comment := by
      simp [State.zone, State.blanks, Ne.symm hline.1]
    obtain ⟨hrest, hafter⟩ : zoned (some c) .blockComment ahead r = allIn .comment r ∧
        State.after (some c) .blockComment ahead r = .blockComment := ih hclosed hline.2 hlast
    rw [zoned, State.after, hnext, hzone, hrest, hafter]
    exact ⟨rfl, rfl⟩

/-- **A comment that is put into code**, or into a block comment, is comment from its first byte to its last, and code
goes on behind it. -/
theorem zoned_comment {inside : Text} (hs : s = .code ∨ s = .blockComment) (hinside : occurrences "*/".toList inside = 0)
    (hhead : inside.head? ≠ some '/') (hline : '\n' ∉ inside) :
    zoned before s ahead (comment inside) = allIn .comment (comment inside) ∧
      State.after before s ahead (comment inside) = .code := by
  have hmark : comment inside = ['/', '*'] ++ (inside ++ ['*', '/']) := by simp [comment]
  -- the two bytes of the mark lead into the block comment
  have hopen : zoned before s ((inside ++ ['*', '/']).head?.or ahead) ['/', '*'] = allIn .comment ['/', '*'] ∧
      State.after before s ((inside ++ ['*', '/']).head?.or ahead) ['/', '*'] = .blockComment := by
    have hstart : (inside ++ ['*', '/']).head?.or ahead ≠ some '/' := by
      cases inside with
      | nil => simp
      | cons x r => exact hhead
    generalize (inside ++ ['*', '/']).head?.or ahead = y at hstart
    rcases hs with rfl | rfl
    · simp [zoned, State.after, State.next, State.zone, State.blanks, allIn]
    · simp [zoned, State.after, State.next, State.zone, State.blanks, allIn, hstart]
  obtain ⟨hin, hafter⟩ : zoned (some '*') .blockComment (some '*') inside = allIn .comment inside ∧
      State.after (some '*') .blockComment (some '*') inside = .blockComment := zoned_blockComment hinside hline (by simp)
  have hclose : zoned (inside.getLast?.or (some '*')) .blockComment ahead ['*', '/'] = allIn .comment ['*', '/'] ∧
      State.after (inside.getLast?.or (some '*')) .blockComment ahead ['*', '/'] = .code := by
    simp [zoned, State.after, State.next, State.zone, State.blanks, allIn]
  rw [hmark, zoned_append, after_append, hopen.1, hopen.2, zoned_append, after_append]
  simp only [List.getLast?_cons_cons, List.getLast?_singleton, Option.some_or, List.head?_cons, hin, hafter, hclose]
  exact ⟨by simp only [allIn_append], trivial⟩

/-! ## What a comment shelters -/

/-- Everything is sheltered in a comment. -/
theorem sheltered_comment (u : List (Char × Zone)) : Sheltered u (allIn .comment (u.map Prod.fst)) := by
  induction u with
  | nil => exact .nil
  | cons b u ih =>
    obtain ⟨c, z⟩ := b
    exact .kept (fun _ => rfl) ih

theorem sheltered_breakCommentEnds (h : u.map Prod.fst = t) : Sheltered u (allIn .comment (breakCommentEnds t)) := by
  induction t using breakCommentEnds.induct generalizing u with
  | case1 r ih =>
    obtain ⟨⟨x, z⟩, u, rfl, hx, hu⟩ := List.map_eq_cons_iff.1 h
    obtain ⟨⟨x', z'⟩, w, rfl, hx', hw⟩ := List.map_eq_cons_iff.1 hu
    obtain rfl : x = '*' := hx
    obtain rfl : x' = '/' := hx'
    exact .kept (fun _ => rfl) (.added (.kept (fun _ => rfl) (ih hw)))
  | case2 c r hend ih =>
    obtain ⟨⟨x, z⟩, u, rfl, hx, hu⟩ := List.map_eq_cons_iff.1 h
    obtain rfl : x = c := hx
    rw [breakCommentEnds]
    · exact .kept (fun _ => rfl) (ih hu)
    · exact hend
  | case3 =>
    rw [List.map_eq_nil_iff] at h
    rw [h]
    exact .nil

/-- Blanks can be left out. -/
theorem sheltered_blanks (h : ∀ b ∈ u, isBlank b.1 = true) : Sheltered u [] := by
  induction u with
  | nil => exact .nil
  | cons b u ih =>
    obtain ⟨c, z⟩ := b
    exact .left (.inl (h _ List.mem_cons_self)) (ih fun b hb => h b (List.mem_cons_of_mem _ hb))

/-- **A statement is sheltered in the comment around it.** -/
theorem sheltered_trim (h : u.map Prod.fst = t) : Sheltered u (allIn .comment (breakCommentEnds (trim t))) := by
  obtain ⟨front, hfront, hblank⟩ := eq_append_trimLeft t
  obtain ⟨back, hback, hblank'⟩ := eq_trimRight_append (trimLeft t)
  have hcut : u.map Prod.fst = front ++ (trim t ++ back) := by rw [h, trim, ← hback, ← hfront]
  obtain ⟨v, w, rfl, hv, hw⟩ := List.map_eq_append_iff.1 hcut
  obtain ⟨x, y, rfl, hx, hy⟩ := List.map_eq_append_iff.1 hw
  have hfirst : Sheltered v [] := by
    apply sheltered_blanks
    intro b hb
    exact hblank b.1 (hv ▸ List.mem_map_of_mem hb)
  have hlast : Sheltered y [] := by
    apply sheltered_blanks
    intro b hb
    exact hblank' b.1 (hy ▸ List.mem_map_of_mem hb)
  simpa using hfirst.append ((sheltered_breakCommentEnds hx).append hlast)

/-! ## A line comment mark before a line -/

/-- Mild bytes at the beginning of a line are read in the state in which it begins. -/
theorem zoned_mild (hs : Begins s) (ha : ∀ x ∈ a, Mild x) :
    zoned before s ahead a = allIn (if s = .code then .code else .comment) a ∧ State.after before s ahead a = s := by
  induction a generalizing before with
  | nil => exact ⟨rfl, rfl⟩
  | cons x r ih =>
    have hx : Mild x := ha x List.mem_cons_self
    have hnext : s.next before x (r.head?.or ahead) = s := hs.next_mild hx
    have hzone : s.zone x s = if s = .code then .code else .comment := by
      rcases hs with rfl | rfl
      · rfl
      · simp [State.zone, State.blanks, hx.ne]
    obtain ⟨hrest, hafter⟩ : zoned (some x) s ahead r = allIn (if s = .code then .code else .comment) r ∧
        State.after (some x) s ahead r = s := ih fun y hy => ha y (List.mem_cons_of_mem x hy)
    rw [zoned, State.after, hnext, hzone, hrest, hafter]
    exact ⟨rfl, rfl⟩

theorem mild_of_isSpaceOrTab (h : isSpaceOrTab c = true) : Mild c := by
  obtain ⟨hblank, hline⟩ := isBlank_of_isSpaceOrTab h
  exact mild_of_blank hblank hline

/-- **Behind a line comment mark** everything is comment. -/
theorem zoned_slashes (hcolon : before ≠ some ':') (hline : '\n' ∉ a) :
    zoned before .code ahead ("//".toList ++ a) = allIn .comment ("//".toList ++ a) ∧
      State.after before .code ahead ("//".toList ++ a) = .lineComment := by
  obtain ⟨hrest, hafter⟩ : zoned (some '/') .lineComment ahead a = allIn .comment a ∧
      State.after (some '/') .lineComment ahead a = .lineComment := zoned_lineComment hline
  have hmark : State.code.next before '/' (some '/') = .opening false := by simp [State.next, hcolon]
  have hfirst : State.code.zone '/' (.opening false) = .comment := rfl
  have hsecond : (State.opening false).zone '/' .lineComment = .comment := rfl
  have hnext : ∀ y, (State.opening false).next (some '/') '/' y = .lineComment := fun _ => rfl
  show zoned before .code ahead ('/' :: '/' :: a) = allIn .comment ('/' :: '/' :: a) ∧
    State.after before .code ahead ('/' :: '/' :: a) = .lineComment
  simp only [zoned, State.after, List.head?_cons, Option.some_or, hmark, hnext, hfirst, hsecond, hrest, hafter]
  exact ⟨rfl, trivial⟩

/-- A line comment ends with its line. -/
theorem after_lineComment (hline : '\n' ∉ a) : State.after before .lineComment none (a ++ ['\n']) = .code := by
  rw [after_concat, (zoned_lineComment hline).2]
  simp [State.next]

/-- A line whose beginning is mild. -/
theorem reads_mild_append (hs : Begins s) (ha : ∀ x ∈ a, isSpaceOrTab x = true) (r : Text) :
    lineZones s (a ++ r) = allIn (if s = .code then .code else .comment) a ++
      zoned (a.getLast?.or (some '\n')) s (some '\n') r ∧
    lineEnd s (a ++ r) = State.after (a.getLast?.or (some '\n')) s none (r ++ ['\n']) := by
  obtain ⟨hzones, hafter⟩ : zoned (some '\n') s (r.head?.or (some '\n')) a =
        allIn (if s = .code then .code else .comment) a ∧ State.after (some '\n') s (r.head?.or (some '\n')) a = s :=
    zoned_mild hs fun x hx => mild_of_isSpaceOrTab (ha x hx)
  rw [lineZones_append, lineEnd_append, hzones, hafter]
  exact ⟨rfl, rfl⟩

/-- Behind spaces and tabs no address begins. -/
theorem ne_colon_of_spaces (ha : ∀ x ∈ a, isSpaceOrTab x = true) : a.getLast?.or (some '\n') ≠ some ':' := by
  cases hlast : a.getLast? with
  | none => simp
  | some x =>
    intro hcolon
    have hspace := ha x (List.mem_of_getLast? hlast)
    rw [Option.some_or, Option.some.injEq] at hcolon
    rw [hcolon] at hspace
    cases hspace

/-- Spaces and tabs in code do not count. -/
theorem net_spaces (ha : ∀ x ∈ a, isSpaceOrTab x = true) (z : Zone) : net (allIn z a) = 0 := by
  apply net_eq_zero
  intro b hb _
  obtain ⟨c, hc, rfl⟩ := List.mem_map.1 hb
  exact Spare.not_brace (.inl (isBlank_of_isSpaceOrTab (ha c hc)).1)

/-- **Reading a line behind a comment mark.** The line is sheltered there, and what is behind it is read as it was, or in
code. In code the mark hides the braces of the line. -/
theorem reads_commentOut (hs : Begins s) (hline : '\n' ∉ l) :
    Sheltered (lineZones s l) (lineZones s (commentOut l)) ∧
      (lineEnd s (commentOut l) = lineEnd s l ∨ lineEnd s (commentOut l) = .code) ∧
      net (lineZones s (commentOut l)) = if s = .code then 0 else net (lineZones s l) := by
  have hl : l.takeWhile isSpaceOrTab ++ l.dropWhile isSpaceOrTab = l := List.takeWhile_append_dropWhile
  have hindent : ∀ x ∈ l.takeWhile isSpaceOrTab, isSpaceOrTab x = true := List.all_eq_true.1 List.all_takeWhile
  rw [commentOut]
  split
  · next hall =>
    have hspaces := List.all_eq_true.1 hall
    refine ⟨.refl _, .inl rfl, ?_⟩
    have hnet : net (lineZones s l) = 0 := by
      rw [lineZones, (zoned_mild hs fun x hx => mild_of_isSpaceOrTab (hspaces x hx)).1]
      exact net_spaces hspaces _
    rw [hnet, ite_self]
  · generalize l.takeWhile isSpaceOrTab = indent at hl hindent
    generalize l.dropWhile isSpaceOrTab = rest at hl
    subst hl
    rw [List.mem_append, not_or] at hline
    have hcolon := ne_colon_of_spaces hindent
    rw [List.append_assoc, (reads_mild_append hs hindent _).1, (reads_mild_append hs hindent _).1]
    rw [(reads_mild_append hs hindent _).2, (reads_mild_append hs hindent _).2]
    have hbehind : '\n' ∉ ' ' :: rest := by simp [hline.2]
    rcases hs with rfl | rfl
    · -- in code the mark takes in the rest of the line
      have hzones : zoned (indent.getLast?.or (some '\n')) .code (some '\n') ("//".toList ++ ' ' :: rest) =
          allIn .comment ("//".toList ++ ' ' :: rest) := (zoned_slashes hcolon hbehind).1
      have hafter : State.after (indent.getLast?.or (some '\n')) .code none ("// ".toList ++ rest ++ ['\n']) = .code := by
        have hcut : "// ".toList ++ rest ++ ['\n'] = "//".toList ++ (' ' :: rest) ++ ['\n'] := by simp
        rw [hcut, after_concat, (zoned_slashes hcolon hbehind).2]
        simp [State.next]
      have hmark : "// ".toList ++ rest = "//".toList ++ ' ' :: rest := rfl
      have hcovered := sheltered_comment (zoned (indent.getLast?.or (some '\n')) .code (some '\n') rest)
      rw [map_fst_zoned] at hcovered
      rw [hafter, hmark, hzones, if_pos rfl]
      refine ⟨(Sheltered.refl _).append (.added (.added (.added hcovered))), .inr rfl, ?_⟩
      rw [if_pos rfl, net_append, net_spaces hindent, net_comment]
      rfl
    · -- in a block comment it is three bytes more
      have hmark : ∀ y, zoned (indent.getLast?.or (some '\n')) .blockComment y "// ".toList = allIn .comment "// ".toList ∧
          State.after (indent.getLast?.or (some '\n')) .blockComment y "// ".toList = .blockComment :=
        fun y => zoned_blockComment rfl (by decide) (by simp)
      have hbefore : ∀ t : Text, t.head? = some '/' →
          (some ' ' = some ':' ↔ indent.getLast?.or (some '\n') = some ':') := by
        intro t _
        exact ⟨fun h => absurd (Option.some.inj h) (by decide), fun h => absurd h hcolon⟩
      have hnew : zoned (indent.getLast?.or (some '\n')) .blockComment (some '\n') ("// ".toList ++ rest) =
          allIn .comment "// ".toList ++ zoned (indent.getLast?.or (some '\n')) .blockComment (some '\n') rest := by
        rw [zoned_append, (hmark _).1, (hmark _).2]
        exact congrArg _ (zoned_congr_before (hbefore rest))
      have hafter : State.after (indent.getLast?.or (some '\n')) .blockComment none ("// ".toList ++ rest ++ ['\n']) =
          State.after (indent.getLast?.or (some '\n')) .blockComment none (rest ++ ['\n']) := by
        rw [List.append_assoc, after_append, (hmark _).2]
        exact after_congr_before (hbefore (rest ++ ['\n']))
      rw [hnew, hafter, if_neg (by decide)]
      refine ⟨(Sheltered.refl _).append (.added (.added (.added (.refl _)))), .inl rfl, ?_⟩
      have hnone : net (allIn .comment "// ".toList) = 0 := net_comment _
      rw [if_neg (by decide), net_append, net_append, net_append, hnone, Int.zero_add]

/-! ## A block comment around a stretch of a line -/

/-- The zones of a stretch of a line. -/
def stretchZones (s : State) (l : Text) (start stop : Nat) : List (Char × Zone) :=
  ((lineZones s l).drop start).take (stop - start)

theorem map_fst_stretchZones (s : State) (l : Text) (start stop : Nat) :
    (stretchZones s l start stop).map Prod.fst = slice l start stop := by
  rw [stretchZones, List.map_take, List.map_drop, map_fst_lineZones, slice]

/-- A byte that is read in one of these states before a slash is read in it before a byte that completes no mark. -/
theorem next_before_slash (hinert : Inert ahead)
    (hopen : s.next before c (some '/') = .code ∨ s.next before c (some '/') = .lineComment ∨
      s.next before c (some '/') = .blockComment) : s.next before c ahead = s.next before c (some '/') := by
  cases s with
  | code =>
    by_cases hslash : c = '/' ∧ before ≠ some ':'
    · simp [State.next, hslash] at hopen
    · simp only [State.next, hinert.1, hinert.2]
      simp only [not_and, Decidable.not_not] at hslash
      by_cases hc : c = '/' <;> simp [hc, hslash]
  | opening block => cases block <;> rfl
  | blockComment =>
    by_cases hstar : c = '*'
    · simp [State.next, hstar] at hopen
    · simp [State.next, hstar]
  | string q =>
    by_cases hback : c = '\\'
    · simp [State.next, hback, protects] at hopen
    · simp [State.next, hback]
  | lineComment | closing | escaped q => rfl

/-- **What stands before a stretch** is read before the mark of a comment as it is before the stretch. -/
theorem reads_before (hinert : Inert ahead)
    (hopen : State.after before s (some '/') a = .code ∨ State.after before s (some '/') a = .lineComment ∨
      State.after before s (some '/') a = .blockComment) :
    State.after before s ahead a = State.after before s (some '/') a ∧
      zoned before s ahead a = zoned before s (some '/') a := by
  rcases List.eq_nil_or_concat a with rfl | ⟨a, x, rfl⟩
  · exact ⟨rfl, rfl⟩
  · rw [List.concat_eq_append, after_concat] at hopen
    have hnext := next_before_slash hinert hopen
    rw [List.concat_eq_append, after_concat, after_concat, zoned_append, zoned_append, List.head?_cons, Option.some_or,
      Option.some_or]
    simp only [zoned, List.head?_nil, Option.none_or, hnext]
    trivial

/-- The zones of a line in three parts, the middle one of which is a stretch. -/
theorem lineZones_cut (s : State) (f m b : Text) : lineZones s (f ++ (m ++ b)) =
    zoned (some '\n') s ((m ++ b).head?.or (some '\n')) f ++
      (stretchZones s (f ++ (m ++ b)) f.length (f.length + m.length) ++
        zoned (m.getLast?.or (f.getLast?.or (some '\n')))
          (State.after (f.getLast?.or (some '\n')) (State.after (some '\n') s ((m ++ b).head?.or (some '\n')) f)
            (b.head?.or (some '\n')) m) (some '\n') b) := by
  have hzones := lineZones_append s f (m ++ b)
  rw [zoned_append m b] at hzones
  rw [stretchZones, hzones, List.drop_left' (length_zoned f), Nat.add_sub_cancel_left, List.take_left' (length_zoned m)]

/-- The part of a line behind a statement is read as it is behind the comment. -/
theorem reads_behind (h : b = [] ∨ s = .code) (hcolon : b.head? = some '/' → before ≠ some ':') :
    zoned before s (some '\n') b = zoned (some '/') .code (some '\n') b := by
  rcases h with rfl | rfl
  · rfl
  · apply zoned_congr_before
    intro hslash
    exact ⟨fun h => absurd h (hcolon hslash), fun h => absurd (Option.some.inj h) (by decide)⟩

/-- **What stands before a stretch**, spaces and tabs or something before a directive, is read as before the mark. -/
theorem reads_front (hs : Begins s)
    (hopens : (∀ x ∈ f, isSpaceOrTab x = true) ∨ (m ++ b).head? = some '@')
    (hmark : State.after (some '\n') s (some '/') f = .code ∨ State.after (some '\n') s (some '/') f = .lineComment ∨
      State.after (some '\n') s (some '/') f = .blockComment) :
    State.after (some '\n') s ((m ++ b).head?.or (some '\n')) f = State.after (some '\n') s (some '/') f ∧
      zoned (some '\n') s ((m ++ b).head?.or (some '\n')) f = zoned (some '\n') s (some '/') f := by
  rcases hopens with hspaces | hat
  · have hmild : ∀ x ∈ f, Mild x := fun x hx => mild_of_isSpaceOrTab (hspaces x hx)
    rw [(zoned_mild hs hmild).1, (zoned_mild hs hmild).1, (zoned_mild hs hmild).2, (zoned_mild hs hmild).2]
    exact ⟨rfl, rfl⟩
  · rw [hat]
    exact reads_before ⟨by decide, by decide⟩ hmark

/-- The byte before the rest of a line, if it is no colon. -/
theorem ne_colon_of_append (h : (f ++ m).getLast? ≠ some ':') :
    m.getLast?.or (f.getLast?.or (some '\n')) ≠ some ':' := by
  rw [List.getLast?_append] at h
  rw [← Option.or_assoc]
  cases hend : m.getLast?.or f.getLast? with
  | none => simp
  | some x =>
    rw [hend] at h
    exact h

/-- **Reading a line with a comment in place of a stretch.** If the comment mark opens a comment where it is put in, or
stands in a line comment, and the stretch ends in code or at the end of its line, then the line is sheltered in the new
one, what is behind it is read as it was, or in code, and the braces are the same but for those of the stretch. -/
theorem reads_wrapped {inside : Text} (hs : Begins s) (hline : '\n' ∉ f ++ (m ++ b))
    (hinside : occurrences "*/".toList inside = 0) (hhead : inside.head? ≠ some '/') (hfeed : '\n' ∉ inside)
    (hsheltered : ∀ u : List (Char × Zone), u.map Prod.fst = m → Sheltered u (allIn .comment (comment inside)))
    (hopens : (∀ x ∈ f, isSpaceOrTab x = true) ∨ (m ++ b).head? = some '@')
    (hmark : State.after (some '\n') s (some '/') f = .code ∨ State.after (some '\n') s (some '/') f = .lineComment ∨
      State.after (some '\n') s (some '/') f = .blockComment)
    (hclose : State.after (some '\n') s (some '/') f ≠ .lineComment → b ≠ [] →
      State.after (some '\n') s b.head? (f ++ m) = .code)
    (hcolon : b.head? = some '/' → (f ++ m).getLast? ≠ some ':') :
    Sheltered (lineZones s (f ++ (m ++ b))) (lineZones s (f ++ (comment inside ++ b))) ∧
    (lineEnd s (f ++ (comment inside ++ b)) = lineEnd s (f ++ (m ++ b)) ∨
      lineEnd s (f ++ (comment inside ++ b)) = .code) ∧
    net (lineZones s (f ++ (m ++ b))) = net (lineZones s (f ++ (comment inside ++ b))) +
      net (stretchZones s (f ++ (m ++ b)) f.length (f.length + m.length)) := by
  have hhead' : (comment inside ++ b).head?.or (some '\n') = some '/' := rfl
  have hstretch : (stretchZones s (f ++ (m ++ b)) f.length (f.length + m.length)).map Prod.fst = m := by
    rw [map_fst_stretchZones, slice, List.drop_left, Nat.add_sub_cancel_left, List.take_left]
  -- before the stretch nothing changes
  have hfront := reads_front hs hopens hmark
  have hold := lineZones_cut s f m b
  rw [hfront.1, hfront.2] at hold
  have hnew := lineZones_append s f (comment inside ++ b)
  rw [hhead', zoned_append] at hnew
  have hendOld := lineEnd_append s f (m ++ b)
  rw [hfront.1, List.append_assoc, after_append, head?_feed] at hendOld
  have hendNew := lineEnd_append s f (comment inside ++ b)
  rw [hhead', List.append_assoc, after_append, head?_feed] at hendNew
  have hcommented : '\n' ∉ comment inside := by simp [comment, hfeed]
  simp only [List.mem_append, not_or] at hline
  obtain ⟨-, hm, hb⟩ := hline
  rw [hold, hnew, hendOld, hendNew]
  have hquoted := hsheltered _ hstretch
  generalize stretchZones s (f ++ (m ++ b)) f.length (f.length + m.length) = u at hquoted
  by_cases hopen : State.after (some '\n') s (some '/') f = .lineComment
  · -- everything behind the mark is in the line comment already
    rw [hopen, (zoned_lineComment hcommented).1, (zoned_lineComment hcommented).2, (zoned_lineComment hm).2,
      (zoned_lineComment hb).1, (zoned_lineComment hb).1, after_lineComment hb, after_lineComment hb]
    refine ⟨(Sheltered.refl _).append (hquoted.append (.refl _)), .inl rfl, ?_⟩
    simp only [net_append, net_comment]
    omega
  · have hs' : State.after (some '\n') s (some '/') f = .code ∨ State.after (some '\n') s (some '/') f = .blockComment :=
      hmark.imp_right fun h => h.resolve_left hopen
    obtain ⟨hin, hafter⟩ : zoned (f.getLast?.or (some '\n')) (State.after (some '\n') s (some '/') f)
          (b.head?.or (some '\n')) (comment inside) = allIn .comment (comment inside) ∧
        State.after (f.getLast?.or (some '\n')) (State.after (some '\n') s (some '/') f) (b.head?.or (some '\n'))
          (comment inside) = .code := zoned_comment hs' hinside hhead hfeed
    have hlast : (comment inside).getLast? = some '/' := getLast?_append_right _ (by decide)
    -- behind the stretch the line goes on as it does behind the comment
    have hstop : b = [] ∨ State.after (f.getLast?.or (some '\n')) (State.after (some '\n') s (some '/') f)
        (b.head?.or (some '\n')) m = .code := by
      by_cases hb : b = []
      · exact .inl hb
      · right
        have hcode := hclose hopen hb
        have hahead : b.head?.or (some '\n') = b.head? := by
          rw [List.head?_eq_some_head hb]
          rfl
        have hnext : m.head?.or b.head? = (m ++ b).head?.or (some '\n') := by
          rw [List.head?_append, Option.or_assoc, hahead]
        rw [after_append, hnext, hfront.1] at hcode
        rw [hahead, hcode]
    have hcolon' : b.head? = some '/' → m.getLast?.or (f.getLast?.or (some '\n')) ≠ some ':' :=
      fun hslash => ne_colon_of_append (hcolon hslash)
    rw [hin, hafter, hlast, Option.some_or, reads_behind hstop hcolon']
    refine ⟨(Sheltered.refl _).append (hquoted.append (.refl _)), ?_, ?_⟩
    · by_cases hb : b = []
      · rw [hb]
        exact .inr rfl
      · rw [hstop.resolve_left hb]
        left
        apply after_congr_before
        intro hslash
        rw [head?_append_left hb] at hslash
        exact ⟨fun h => absurd (Option.some.inj h) (by decide), fun h => absurd h (hcolon' hslash)⟩
    · simp only [net_append, net_comment]
      omega

end Flatsheet.Repair
