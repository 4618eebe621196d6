import Flatsheet.Proofs.Style.Declarations
import Flatsheet.Proofs.Style.Marker
import Flatsheet.Proofs.Style.References
import Flatsheet.Repair.Fixer
import Mathlib.Data.Nat.Find

/-!
# `Proofs.Repair.Calls` — mixin calls on a line, and taking them out of use

The repairs look for a call in the bytes of a line, comments and strings included: the keyword, spaces and tabs, and
the first byte of a name (`callsHere`). They find the first one (`includeAt?_eq_some_iff`), and none only if there is
none (`includeAt?_eq_none_iff`).

What is taken out of use is a stretch that begins with the call. It comes out in one of two forms
(`disableSpan_eq`): behind a line comment mark, or inside a block comment in which no other one ends. Inside the block
comment the call still stands as it was (`quote_of_head`).

Converting references makes a call only where a reference stands in the place of a name (`calling_expressions`).
-/

namespace Flatsheet.Repair

open Text Style Mask

variable {t u v w p r l : Text} {x y : Char} {gap : Char → Bool} {k n d start last : Nat}
  {pieces : List (Text × Text)} {name tail : Text}

/-! ## Calls -/

/-- A call of a mixin begins the text: the keyword, a gap of bytes of the class, and the first byte of a name. -/
def callsHere (gap : Char → Bool) (t : Text) : Bool :=
  startsWith t "@include".toList && ((t.drop 8).dropWhile gap).head?.any isIdent

/-- The part of a call that makes it one. -/
def Head (gap : Char → Bool) (w : Text) : Prop :=
  ∃ between x, w = "@include".toList ++ between ++ [x] ∧ (∀ c ∈ between, gap c = true) ∧ isIdent x = true

theorem Head.parts (h : Head gap w) :
    ∃ between x, w = "@include".toList ++ between ++ [x] ∧ (∀ c ∈ between, gap c = true) ∧ isIdent x = true := h

theorem isIdent_of_isSpaceOrTab (h : isSpaceOrTab x = true) : isIdent x = false := by
  simp only [isSpaceOrTab, Bool.or_eq_true, decide_eq_true_eq] at h
  rcases h with rfl | rfl <;> rfl

theorem exists_head (h : callsHere gap t = true) : ∃ w r, t = w ++ r ∧ Head gap w := by
  rw [callsHere, Bool.and_eq_true] at h
  obtain ⟨hword, hname⟩ := h
  obtain ⟨rest, rfl⟩ := List.isPrefixOf_iff_prefix.1 hword
  have hrest : ("@include".toList ++ rest).drop 8 = rest := rfl
  rw [hrest] at hname
  cases hbehind : rest.dropWhile gap with
  | nil =>
    rw [hbehind] at hname
    cases hname
  | cons x r =>
    rw [hbehind] at hname
    refine ⟨"@include".toList ++ rest.takeWhile gap ++ [x], r, ?_, ⟨rest.takeWhile gap, x, rfl, ?_, hname⟩⟩
    · rw [List.append_assoc, List.append_assoc, List.singleton_append, ← hbehind, List.takeWhile_append_dropWhile]
    · exact List.all_eq_true.1 List.all_takeWhile

theorem Head.callsHere (h : Head isSpaceOrTab w) (r : Text) : callsHere isSpaceOrTab (w ++ r) = true := by
  obtain ⟨between, x, rfl, hbetween, hx⟩ := h
  have hcut : "@include".toList ++ between ++ [x] ++ r = "@include".toList ++ (between ++ x :: r) := by simp
  have hstops : isSpaceOrTab x = false := by
    by_contra hgap
    rw [isIdent_of_isSpaceOrTab (Bool.not_eq_false _ ▸ hgap)] at hx
    cases hx
  have hrest : ("@include".toList ++ (between ++ x :: r)).drop 8 = between ++ x :: r := rfl
  rw [hcut, Repair.callsHere, hrest, List.dropWhile_append_of_pos hbetween, List.dropWhile_cons_of_neg (by simp [hstops])]
  rw [Bool.and_eq_true]
  exact ⟨List.isPrefixOf_iff_prefix.2 (List.prefix_append _ _), hx⟩

/-- A head holds no byte that ends a statement or makes a difference to a comment. -/
theorem Head.inert (h : Head isSpaceOrTab w) : ∀ c ∈ w, c ∉ "()\x7b\x7d;*/".toList := by
  obtain ⟨between, x, rfl, hbetween, hx⟩ := h
  have hkeyword : ∀ c ∈ "@include".toList, c ∉ "()\x7b\x7d;*/".toList := by simp
  have hmarks : ∀ c ∈ "()\x7b\x7d;*/".toList, isSpaceOrTab c = false ∧ isIdent c = false := by
    simp [isSpaceOrTab, isIdent]
  intro c hc hmark
  obtain ⟨hgap, hident⟩ := hmarks c hmark
  rcases List.mem_append.1 hc with hc | hc
  · rcases List.mem_append.1 hc with hc | hc
    · exact hkeyword c hc hmark
    · rw [hbetween c hc] at hgap
      cases hgap
  · rw [List.mem_singleton.1 hc, hx] at hident
    cases hident

/-- The bytes of a call before its name. -/
theorem not_mem_before_name {between : Text} (hx : x ∉ "@include \t".toList)
    (hbetween : ∀ c ∈ between, isSpaceOrTab c = true) : x ∉ "@include".toList ++ between := by
  intro hmem
  rcases List.mem_append.1 hmem with hmem | hmem
  · exact hx (List.mem_append_left " \t".toList hmem)
  · have hgap := hbetween x hmem
    simp only [isSpaceOrTab, Bool.or_eq_true, decide_eq_true_eq] at hgap
    rcases hgap with rfl | rfl <;> exact hx (by decide)

/-- A byte that is in no call but perhaps in a name is not in a head. -/
theorem Head.foreign (h : Head isSpaceOrTab w) (hx : x ∉ "@include \t".toList) (hident : isIdent x = false) : x ∉ w := by
  obtain ⟨between, y, rfl, hbetween, hy⟩ := h
  intro hmem
  rcases List.mem_append.1 hmem with hmem | hmem
  · exact not_mem_before_name hx hbetween hmem
  · rw [List.mem_singleton.1 hmem, hy] at hident
    cases hident

/-! ## The first call of a line -/

theorem lookInclude_eq (seen : Text) (pos : Nat) (t : Text) : lookInclude [] ⟨seen, pos, t⟩ =
    if callsHere isSpaceOrTab t then .found pos 8 else .nothing := by
  unfold lookInclude callsHere
  dsimp only [List.isEmpty_nil]
  rw [Cursor.byte?, Cursor.rest_skip]
  show (if startsWith t "@include".toList = true then
    (if ((t.drop 8).dropWhile isSpaceOrTab).head?.any isIdent = true then _ else _) else _) = _
  cases startsWith t "@include".toList <;> rfl

theorem head?_sweep_calls (seen : Text) (pos : Nat) (t : Text) :
    (sweepFrom (lookInclude []) seen pos 0 t).head? = some n ↔
      ∃ k, n = pos + k ∧ callsHere isSpaceOrTab (t.drop k) = true ∧
        ∀ j, j < k → callsHere isSpaceOrTab (t.drop j) = false := by
  induction t generalizing seen pos with
  | nil =>
    constructor
    · nofun
    · rintro ⟨k, -, hcalls, -⟩
      rw [List.drop_nil] at hcalls
      cases hcalls
  | cons c r ih =>
    rw [sweepFrom, if_neg (Nat.lt_irrefl 0), lookInclude_eq]
    -- the sweep stops at the first call that it comes to
    cases hhere : callsHere isSpaceOrTab (c :: r) with
    | true =>
      rw [if_pos rfl]
      constructor
      · rintro ⟨⟩
        exact ⟨0, rfl, hhere, fun j hj => absurd hj (Nat.not_lt_zero j)⟩
      · rintro ⟨k, rfl, -, hfirst⟩
        cases k with
        | zero => rfl
        | succ k =>
          have hnone := hfirst 0 (Nat.succ_pos k)
          rw [List.drop_zero, hhere] at hnone
          cases hnone
    | false =>
      rw [if_neg Bool.false_ne_true]
      show (sweepFrom (lookInclude []) (c :: seen) (pos + 1) 0 r).head? = some n ↔ _
      rw [ih]
      constructor
      · rintro ⟨k, rfl, hcalls, hfirst⟩
        refine ⟨k + 1, by omega, hcalls, ?_⟩
        intro j hj
        cases j with
        | zero => exact hhere
        | succ j => exact hfirst j (Nat.lt_of_succ_lt_succ hj)
      · rintro ⟨k, rfl, hcalls, hfirst⟩
        cases k with
        | zero =>
          rw [List.drop_zero, hhere] at hcalls
          cases hcalls
        | succ k => exact ⟨k, by omega, hcalls, fun j hj => hfirst (j + 1) (Nat.succ_lt_succ hj)⟩

/-- **The call that is found is the first one.** -/
theorem includeAt?_eq_some_iff : includeAt? l [] = some k ↔
    callsHere isSpaceOrTab (l.drop k) = true ∧ ∀ j, j < k → callsHere isSpaceOrTab (l.drop j) = false := by
  rw [includeAt?, sweep, head?_sweep_calls]
  constructor
  · rintro ⟨k, rfl, h⟩
    rw [Nat.zero_add]
    exact h
  · intro h
    exact ⟨k, (Nat.zero_add k).symm, h⟩

/-- A call stands somewhere in the text. -/
def Calling (t : Text) : Prop := ∃ k, callsHere isSpaceOrTab (t.drop k) = true

/-- **None is found exactly if there is none.** -/
theorem includeAt?_eq_none_iff : includeAt? l [] = none ↔ ¬ Calling l := by
  constructor
  · intro hnone hsome
    have hfirst : includeAt? l [] = some (Nat.find hsome) :=
      includeAt?_eq_some_iff.2 ⟨Nat.find_spec hsome, fun j hj => Bool.eq_false_iff.2 (Nat.find_min hsome hj)⟩
    rw [hnone] at hfirst
    cases hfirst
  · intro hquiet
    cases hfound : includeAt? l [] with
    | none => rfl
    | some k => exact absurd ⟨k, (includeAt?_eq_some_iff.1 hfound).1⟩ hquiet

/-! ## Texts with calls -/

theorem calling_iff : Calling t ↔ ∃ u w r, t = u ++ w ++ r ∧ Head isSpaceOrTab w := by
  constructor
  · rintro ⟨k, hcalls⟩
    obtain ⟨w, r, hcut, hhead⟩ := exists_head hcalls
    exact ⟨t.take k, w, r, by rw [List.append_assoc, ← hcut, List.take_append_drop], hhead⟩
  · rintro ⟨u, w, r, rfl, hhead⟩
    refine ⟨u.length, ?_⟩
    rw [List.append_assoc, List.drop_left]
    exact hhead.callsHere r

/-- The text ends with the keyword and spaces or tabs: a name behind it makes a call. -/
def AwaitsName (t : Text) : Prop :=
  ∃ u between, t = u ++ "@include".toList ++ between ∧ ∀ c ∈ between, isSpaceOrTab c = true

/-- A text without the byte with which the keyword begins makes no difference. -/
theorem calling_append (h : '@' ∉ t) (r : Text) : Calling (t ++ r) ↔ Calling r := by
  rw [calling_iff, calling_iff]
  constructor
  · rintro ⟨u, w, rest, hcut, hhead⟩
    obtain ⟨between, x, rfl, -⟩ := hhead.parts
    rw [List.append_assoc] at hcut
    rcases List.append_eq_append_iff.1 hcut with ⟨v, rfl, hr⟩ | ⟨v, rfl, hr⟩
    · exact ⟨v, _, rest, by rw [hr, List.append_assoc v], hhead⟩
    · cases v with
      | nil => exact ⟨[], _, rest, hr.symm, hhead⟩
      | cons c v =>
        obtain rfl : '@' = c := (List.cons.inj hr).1
        exact absurd (List.mem_append_right u List.mem_cons_self) h
  · rintro ⟨u, w, rest, rfl, hhead⟩
    exact ⟨t ++ u, w, rest, by simp only [List.append_assoc], hhead⟩

/-- **A byte that is in no call but as the byte of its name** cuts a text: the calls are those before it, those behind
it, and the one that it completes. -/
theorem calling_append_cons (hx : x ∉ "@include \t".toList) (u r : Text) :
    Calling (u ++ x :: r) ↔ Calling u ∨ (AwaitsName u ∧ isIdent x = true) ∨ Calling r := by
  constructor
  · intro h
    obtain ⟨p, w, rest, hcut, hhead⟩ := calling_iff.1 h
    obtain ⟨between, y, rfl, hbetween, hy⟩ := hhead.parts
    have hin : x ∉ "@include".toList ++ between := not_mem_before_name hx hbetween
    rw [← List.append_assoc, List.append_assoc, List.singleton_append] at hcut
    -- the byte lies behind the name's first byte, is that byte, or lies before the keyword
    rcases List.append_eq_append_iff.1 hcut with ⟨v, hv, hbehind⟩ | ⟨v, rfl, hbehind⟩
    · cases v with
      | nil =>
        obtain ⟨rfl, -⟩ := List.cons.inj hbehind
        rw [List.append_nil] at hv
        exact .inr (.inl ⟨⟨p, between, by rw [← hv, List.append_assoc], hbetween⟩, hy⟩)
      | cons c v =>
        obtain ⟨rfl, rfl⟩ := List.cons.inj hbehind
        rcases List.append_eq_append_iff.1 hv with ⟨q, -, hq⟩ | ⟨q, -, hq⟩
        · exact absurd (hq ▸ List.mem_append_right q List.mem_cons_self) hin
        · cases q with
          | nil =>
            rw [← List.nil_append (_ ++ between), ← hq] at hin
            exact absurd List.mem_cons_self hin
          | cons c q =>
            obtain ⟨-, rfl⟩ := List.cons.inj hq
            exact .inr (.inr (calling_iff.2
              ⟨q, "@include".toList ++ between ++ [y], rest, by simp [List.append_eq], hhead⟩))
    · cases v with
      | nil =>
        obtain ⟨rfl, -⟩ := List.cons.inj hbehind
        exact .inr (.inl ⟨⟨p, between, by simp, hbetween⟩, hy⟩)
      | cons c v =>
        obtain ⟨rfl, -⟩ := List.cons.inj hbehind
        exact .inl (calling_iff.2 ⟨p, "@include".toList ++ between ++ [y], v, by simp, hhead⟩)
  · rintro (h | ⟨⟨p, between, rfl, hbetween⟩, hx⟩ | h)
    · obtain ⟨p, w, rest, rfl, hhead⟩ := calling_iff.1 h
      exact calling_iff.2 ⟨p, w, rest ++ x :: r, by simp, hhead⟩
    · exact calling_iff.2 ⟨p, "@include".toList ++ between ++ [x], r, by simp, between, x, rfl, hbetween, hx⟩
    · obtain ⟨p, w, rest, rfl, hhead⟩ := calling_iff.1 h
      exact calling_iff.2 ⟨u ++ x :: p, w, rest, by simp, hhead⟩

/-- Before a byte that is in no call, a call that begins in a text lies in it. -/
theorem callsHere_of_append (hx : x ∉ "@include \t".toList) (hident : isIdent x = false) (hu : u ≠ [])
    (h : callsHere isSpaceOrTab (u ++ x :: r) = true) (r' : Text) : callsHere isSpaceOrTab (u ++ r') = true := by
  obtain ⟨w, rest, hcut, hhead⟩ := exists_head h
  have hin : x ∉ w := hhead.foreign hx hident
  rcases List.append_eq_append_iff.1 hcut with ⟨v, rfl, hbehind⟩ | ⟨v, rfl, hbehind⟩
  · cases v with
    | nil =>
      rw [List.append_nil] at hhead
      exact hhead.callsHere r'
    | cons c v =>
      obtain rfl : x = c := (List.cons.inj hbehind).1
      exact absurd (List.mem_append_right u List.mem_cons_self) hin
  · rw [List.append_assoc]
    exact hhead.callsHere (v ++ r')

/-! ## Calls in converted text -/

/-- **Converting references makes a call where a reference stands in the place of a name**, and nowhere else. -/
theorem calling_expressions (hnames : ∀ p ∈ pieces, IsName p.2) : Calling (weave expression pieces tail) ↔
    Calling (weave reference pieces tail) ∨ ∃ p ∈ pieces, AwaitsName p.1 := by
  induction pieces with
  | nil => simp [weave]
  | cons p pieces ih =>
    obtain ⟨front, name⟩ := p
    have hname : '@' ∉ name := fun hat => absurd ((hnames _ List.mem_cons_self).2 '@' hat) (by decide)
    have hrest := ih fun p hp => hnames p (List.mem_cons_of_mem _ hp)
    have hreference : weave reference ((front, name) :: pieces) tail =
        front ++ '$' :: (name ++ weave reference pieces tail) := by
      simp [weave, reference]
    have hrestored : '@' ∉ "ar(--".toList ++ name ++ [')'] := by simp [hname]
    rw [weave_expression_cons, hreference, calling_append_cons (by decide), calling_append_cons (by decide),
      calling_append hname, calling_append hrestored, hrest]
    have hvar : isIdent 'v' = true := rfl
    have hdollar : isIdent '$' = false := rfl
    simp only [hvar, hdollar, List.mem_cons, exists_eq_or_imp, and_true, Bool.false_eq_true, and_false, false_or]
    rw [or_left_comm (a := AwaitsName front), or_assoc]

/-! ## Statements -/

/-- Bytes that neither open nor close anything are gone over. -/
theorem statementEnd_append (h : ∀ c ∈ w, c ∉ "()\x7b\x7d;".toList) (r : Text) :
    statementEnd d n k (w ++ r) = statementEnd d n (k + w.length) r := by
  induction w generalizing k with
  | nil => rfl
  | cons c w ih =>
    have hc : c ≠ '(' ∧ c ≠ ')' ∧ c ≠ '{' ∧ c ≠ '}' ∧ c ≠ ';' := by simpa using h c List.mem_cons_self
    rw [List.cons_append, statementEnd, if_neg hc.1, if_neg hc.2.1, if_neg hc.2.2.1, if_neg hc.2.2.2.1,
      if_neg (by simp [hc.2.2.2.2]), ih fun c hc => h c (List.mem_cons_of_mem _ hc), List.length_cons,
      Nat.add_assoc, Nat.add_comm 1]

/-- A statement does not end before its first byte. -/
theorem le_statementEnd (h : statementEnd d n k t = .ok last) : k ≤ last := by
  fun_induction statementEnd d n k t with
  | case1 => cases h
  | case5 | case6 | case8 =>
    cases h
    omega
  | case2 | case3 | case4 | case7 | case9 =>
    next ih => exact Nat.le_of_succ_le (ih h)

/-- The end of a statement on its line, which is that of the line if it goes on. -/
def OpenStatement.stop (s : OpenStatement) (start : Nat) (l : Text) : Nat :=
  match statementEnd s.depth s.parens start (l.drop start) with
  | .ok stop => stop
  | .error _ => l.length

theorem disable_line (s : OpenStatement) (start : Nat) (l : Text) :
    (s.disable start l).1 = disableSpan l start (s.stop start l) := by
  unfold OpenStatement.disable OpenStatement.stop
  cases statementEnd s.depth s.parens start (l.drop start) <;> rfl

/-- A statement that begins with a call takes in its head. -/
theorem stop_of_head (s : OpenStatement) (hcut : l.drop start = w ++ r) (hhead : Head isSpaceOrTab w) :
    start + w.length ≤ s.stop start l := by
  have hplain : ∀ c ∈ w, c ∉ "()\x7b\x7d;".toList := by
    intro c hc hmark
    exact hhead.inert c hc (List.mem_append_left "*/".toList hmark)
  have hlength := congrArg List.length hcut
  rw [List.length_drop, List.length_append] at hlength
  have hpos : 0 < w.length := by
    obtain ⟨between, x, rfl, -⟩ := hhead.parts
    simp
  rw [OpenStatement.stop, hcut, statementEnd_append hplain]
  split
  · next stop hend => exact le_statementEnd hend
  · omega

/-! ## Taking a stretch out of use -/

/-- What the comment around a stretch holds. -/
def quote (l : Text) (start stop : Nat) : Text := " ".toList ++ breakCommentEnds (trim (slice l start stop)) ++ " ".toList

/-- **A stretch is taken out of use by a line comment or a block comment.** -/
theorem disableSpan_eq (l : Text) (start stop : Nat) : disableSpan l start stop =
    if isBlankLine (l.take start) && isBlankLine (l.drop stop) then commentOut l
    else l.take start ++ comment (quote l start stop) ++ l.drop stop := by
  unfold disableSpan quote comment
  dsimp only
  split
  · rfl
  · simp

/-- **No comment ends in the block comment.** -/
theorem occurrences_quote (l : Text) (start stop : Nat) : occurrences "*/".toList (quote l start stop) = 0 := by
  rw [quote, occurrences_quoted rfl]
  · rfl
  · rintro x ⟨⟩
    rfl

theorem breakCommentEnds_append (h : '*' ∉ w) (t : Text) : breakCommentEnds (w ++ t) = w ++ breakCommentEnds t := by
  induction w with
  | nil => rfl
  | cons c w ih =>
    rw [List.mem_cons, not_or] at h
    rw [List.cons_append, breakCommentEnds, ih h.2, List.cons_append]
    intro r hc
    exact absurd hc.symm h.1

/-- **The comment holds the call as it was.** -/
theorem quote_of_head (hcut : l.drop start = w ++ r) (hhead : Head isSpaceOrTab w) (hlast : start + w.length ≤ last) :
    ∃ rest, quote l start last = ' ' :: (w ++ rest) := by
  have hslice : slice l start last = w ++ r.take (last - start - w.length) := by
    rw [slice, hcut, List.take_append, List.take_of_length_le (by omega)]
  have hstar : '*' ∉ w := fun hmem => hhead.inert '*' hmem (by decide)
  obtain ⟨rest, htrim⟩ : ∃ rest, trim (w ++ r.take (last - start - w.length)) = w ++ rest := by
    obtain ⟨between, x, rfl, -, hx⟩ := hhead.parts
    have hsolid : isBlank x = false := by
      rw [Bool.eq_false_iff]
      intro hblank
      rw [not_isIdent_of_blank hblank] at hx
      cases hx
    have hfirst : ("@include".toList ++ between ++ [x] ++ r.take (last - start -
        ("@include".toList ++ between ++ [x]).length)).head?.any isBlank = false := rfl
    rw [trim_eq_trimRight hfirst, trimRight_append, trimRight_concat, hsolid]
    split
    · exact ⟨[], (List.append_nil _).symm⟩
    · exact ⟨_, rfl⟩
  rw [quote, hslice, htrim, breakCommentEnds_append hstar]
  exact ⟨breakCommentEnds rest ++ " ".toList, by simp⟩

end Flatsheet.Repair
