import Flatsheet.Proofs.Style.Scanner

/-!
# `Proofs.Style.ImportEnd` — where an import statement ends

The scan of an import statement counts parentheses. What it passes over outside of them is no semicolon, no brace and no
line feed at which the path list ends, and outside of them it ends, or else with the text (`importLength_ends`). So
what the statement takes of the code depends on what becomes of its parentheses:

* each of them is closed somewhere in the code: then the statement closes them all, and takes no brace outside of them
  and no line behind its path list (`Import.Spares`);
* one of them is never closed: then the statement takes the rest of the code, with all the rules in it.

`imports_spare_rules` says so for every text, and `open_parenthesis_swallows_rule` is a text of the second kind.
-/

namespace Flatsheet.Style

open Text Check Mask

variable {t w u : Text} {c : Cursor} {x : Char} {last : Option Char} {d e i j k n o p : Nat} {terminated : Bool}

/-! ## Open parentheses -/

/-- The number of open parentheses after a byte. One that closes nothing does not count. -/
def parensNext (n : Nat) (c : Char) : Nat := if c = '(' then n + 1 else if c = ')' then n - 1 else n

/-- The number of open parentheses after a piece of code, if `n` are open before it. -/
def openParens (n : Nat) (w : Text) : Nat := w.foldl parensNext n

theorem openParens_cons (n : Nat) (x : Char) (w : Text) : openParens n (x :: w) = openParens (parensNext n x) w := rfl

theorem openParens_append (n : Nat) (u w : Text) : openParens n (u ++ w) = openParens (openParens n u) w :=
  List.foldl_append

theorem openParens_succ (n : Nat) (hx : w[k]? = some x) :
    openParens n (w.take (k + 1)) = parensNext (openParens n (w.take k)) x := by
  rw [List.take_add_one, hx, Option.toList_some, openParens_append]
  rfl

/-- **Where fewer are open than before, one has been closed.** -/
theorem closing_of_openParens (he : 1 ≤ e) (hed : e ≤ d) (h : openParens d (w.take k) ≤ d - e) :
    ∃ n, closingOffset? '(' ')' e w = some n := by
  induction w generalizing d e k with
  | nil =>
    have hnone : d ≤ d - e := by
      rw [List.take_nil] at h
      exact h
    omega
  | cons x r ih =>
    cases k with
    | zero =>
      have hnone : d ≤ d - e := h
      omega
    | succ k =>
      rw [List.take_succ_cons, openParens_cons] at h
      rw [closingOffset?]
      -- one that opens raises both counts, one that closes lowers both, and the difference stays
      by_cases hopen : x = '('
      · have hd : parensNext d x = d + 1 := if_pos hopen
        rw [hd] at h
        obtain ⟨n, hn⟩ := ih (d := d + 1) (e := e + 1) (k := k) (by omega) (by omega) (by omega)
        have hcast : ((e + 1 : Nat) : Int) = e + 1 := rfl
        rw [hcast] at hn
        rw [if_pos hopen, hn]
        exact ⟨n + 1, rfl⟩
      · rw [if_neg hopen]
        by_cases hclose : x = ')'
        · have hd : parensNext d x = d - 1 := by rw [parensNext, if_neg hopen, if_pos hclose]
          rw [hd] at h
          rw [if_pos hclose]
          by_cases hlast : e = 1
          · rw [if_pos (by omega)]
            exact ⟨0, rfl⟩
          · obtain ⟨n, hn⟩ := ih (d := d - 1) (e := e - 1) (k := k) (by omega) (by omega) (by omega)
            have hcast : ((e - 1 : Nat) : Int) = e - 1 := by omega
            rw [hcast] at hn
            rw [if_neg (by omega), hn]
            exact ⟨n + 1, rfl⟩
        · have hd : parensNext d x = d := by rw [parensNext, if_neg hopen, if_neg hclose]
          rw [hd] at h
          obtain ⟨n, hn⟩ := ih he hed h
          rw [if_neg hclose, hn]
          exact ⟨n + 1, rfl⟩

/-- **Up to where it is closed a group is open**, and after that none is. -/
theorem openParens_of_closing (he : 1 ≤ e) (h : closingOffset? '(' ')' e w = some n) :
    (∀ k, k ≤ n → 1 ≤ openParens e (w.take k)) ∧ openParens e (w.take (n + 1)) = 0 := by
  induction w generalizing e n with
  | nil => cases h
  | cons x r ih =>
    -- the byte opens or closes a group, but not the last one
    have further : ∀ {e' : Nat}, 1 ≤ e' → parensNext e x = e' →
        (closingOffset? '(' ')' e' r).map (· + 1) = some n →
        (∀ k, k ≤ n → 1 ≤ openParens e ((x :: r).take k)) ∧ openParens e ((x :: r).take (n + 1)) = 0 := by
      intro e' he' hopen hmap
      obtain ⟨m, hm, rfl⟩ := Option.map_eq_some_iff.1 hmap
      obtain ⟨hinside, hend⟩ := ih he' hm
      refine ⟨?_, ?_⟩
      · intro k hk
        cases k with
        | zero => exact he
        | succ k =>
          rw [List.take_succ_cons, openParens_cons, hopen]
          exact hinside k (Nat.le_of_succ_le_succ hk)
      · rw [List.take_succ_cons, openParens_cons, hopen]
        exact hend
    rw [closingOffset?] at h
    split at h
    · next hopen =>
      have hcast : (e : Int) + 1 = ((e + 1 : Nat) : Int) := rfl
      rw [hcast] at h
      exact further (Nat.le_add_left 1 e) (if_pos hopen) h
    · next hopen =>
      split at h
      · next hclose =>
        have hafter : parensNext e x = e - 1 := by rw [parensNext, if_neg hopen, if_pos hclose]
        split at h
        · next hlast =>
          cases h
          refine ⟨?_, ?_⟩
          · intro k hk
            rw [Nat.le_zero.1 hk]
            exact he
          · rw [List.take_succ_cons, openParens_cons, hafter, List.take_zero]
            show e - 1 = 0
            omega
        · have hcast : (e : Int) - 1 = ((e - 1 : Nat) : Int) := by omega
          rw [hcast] at h
          exact further (by omega) hafter h
      · next hclose =>
        exact further he (by rw [parensNext, if_neg hopen, if_neg hclose]) h

/-- **Where a parenthesis is open, the outermost one began at a place where none was.** -/
theorem exists_outermost (h : 0 < openParens 0 (w.take j)) : ∃ o, o < j ∧ w[o]? = some '(' ∧
    openParens 0 (w.take o) = 0 ∧ ∀ k, o < k → k ≤ j → 0 < openParens 0 (w.take k) := by
  -- the outermost one of a longer beginning is that of the shorter one, or its last byte
  induction j with
  | zero => cases h
  | succ j ih =>
    cases hx : w[j]? with
    | none =>
      have hshort : w.length ≤ j := List.getElem?_eq_none_iff.1 hx
      have hsame : w.take (j + 1) = w.take j := by
        rw [List.take_of_length_le hshort, List.take_of_length_le (Nat.le_succ_of_le hshort)]
      rw [hsame] at h
      obtain ⟨o, hlt, hopen, hnone, hsome⟩ := ih h
      refine ⟨o, by omega, hopen, hnone, ?_⟩
      intro k hk hkj
      rcases Nat.le_or_eq_of_le_succ hkj with hle | rfl
      · exact hsome k hk hle
      · rw [hsame]
        exact h
    | some x =>
      by_cases hbefore : 0 < openParens 0 (w.take j)
      · obtain ⟨o, hlt, hopen, hnone, hsome⟩ := ih hbefore
        refine ⟨o, by omega, hopen, hnone, ?_⟩
        intro k hk hkj
        rcases Nat.le_or_eq_of_le_succ hkj with hle | rfl
        · exact hsome k hk hle
        · exact h
      · -- it is the last byte that has opened one
        have hzero : openParens 0 (w.take j) = 0 := by omega
        rw [openParens_succ 0 hx, hzero] at h
        have hparen : x = '(' := by
          by_contra hno
          rw [parensNext, if_neg hno] at h
          split at h <;> cases h
        refine ⟨j, Nat.lt_succ_self j, hparen ▸ hx, hzero, ?_⟩
        intro k hk hkj
        rw [Nat.le_antisymm hkj hk, openParens_succ 0 hx, hzero]
        exact h

/-! ## The scan -/

/-- **A path list goes on at a line feed**: the byte before it that is not blank is a comma, or the one behind it. -/
def GoesOn (last : Option Char) (before behind : Text) : Prop :=
  (bare before).getLast?.or last = some ',' ∨ (bare behind).head? = some ','

theorem head?_trimLeft (t : Text) : (trimLeft t).head? = (bare t).head? := by
  induction t with
  | nil => rfl
  | cons y r ih =>
    cases hy : isBlank y with
    | true => rw [bare_cons_of_blank hy, ← ih, trimLeft, trimLeft, List.dropWhile_cons_of_pos hy]
    | false =>
      rw [trimLeft, List.dropWhile_cons_of_neg (by simp [hy]), bare, List.filter_cons_of_pos (by simp [hy])]
      rfl

/-- The last byte that is not blank, after one more byte. -/
theorem getLast?_bare_cons (last : Option Char) (x : Char) (u : Text) :
    (bare (x :: u)).getLast?.or last = (bare u).getLast?.or (if isBlank x then last else some x) := by
  cases hx : isBlank x with
  | true => rw [bare_cons_of_blank hx, if_pos rfl]
  | false =>
    have hcons : bare (x :: u) = x :: bare u := by
      rw [bare, List.filter_cons_of_pos (by simp [hx])]
      rfl
    rw [hcons, if_neg Bool.false_ne_true, List.getLast?_cons]
    cases (bare u).getLast? <;> rfl

/-- **What the scan passes over and where it stops**, with `p` parentheses open before it. -/
structure ScanEnds (p : Nat) (last : Option Char) (w : Text) (n : Nat) (terminated : Bool) : Prop where
  length : n ≤ w.length
  passed : ∀ k x, k < n → w[k]? = some x → openParens p (w.take k) = 0 →
    x ≠ ';' ∧ x ≠ '\x7b' ∧ x ≠ '\x7d' ∧ (x = '\n' → GoesOn last (w.take k) (w.drop (k + 1)))
  stopped : ∀ x, w[n]? = some x → openParens p (w.take n) = 0 ∧
    (terminated = true ∧ x = ';' ∨
      terminated = false ∧ (x = '\x7b' ∨ x = '\x7d' ∨ x = '\n' ∧ ¬ GoesOn last (w.take n) (w.drop (n + 1))))
  ended : w[n]? = none → terminated = false

/-- The scan stops at its first byte. -/
theorem scanEnds_here (h : p = 0 ∧ (terminated = true ∧ x = ';' ∨
    terminated = false ∧ (x = '\x7b' ∨ x = '\x7d' ∨ x = '\n' ∧ ¬ GoesOn last [] u))) :
    ScanEnds p last (x :: u) 0 terminated := by
  refine ⟨Nat.zero_le _, nofun, ?_, nofun⟩
  rintro y ⟨⟩
  exact h

/-- The scan passes over its first byte. -/
theorem ScanEnds.cons (h : ScanEnds (parensNext p x) (if isBlank x then last else some x) u n terminated)
    (hx : p = 0 → x ≠ ';' ∧ x ≠ '\x7b' ∧ x ≠ '\x7d' ∧ (x = '\n' → GoesOn last [] u)) :
    ScanEnds p last (x :: u) (n + 1) terminated := by
  have hgoes : ∀ k, GoesOn last (x :: u.take k) (u.drop (k + 1)) ↔
      GoesOn (if isBlank x then last else some x) (u.take k) (u.drop (k + 1)) := by
    intro k
    rw [GoesOn, getLast?_bare_cons]
    exact Iff.rfl
  refine ⟨Nat.succ_le_succ h.length, ?_, ?_, h.ended⟩
  · intro k y hk hy hnone
    cases k with
    | zero =>
      cases hy
      exact hx hnone
    | succ k =>
      obtain ⟨hsemicolon, hopen, hclose, hfeed⟩ := h.passed k y (Nat.lt_of_succ_lt_succ hk) hy hnone
      exact ⟨hsemicolon, hopen, hclose, fun hy' => (hgoes k).2 (hfeed hy')⟩
  · intro y hy
    obtain ⟨hnone, hend⟩ := h.stopped y hy
    refine ⟨hnone, hend.imp_right (And.imp_right (Or.imp_right (Or.imp_right ?_)))⟩
    rintro ⟨hfeed, hover⟩
    exact ⟨hfeed, fun hgoing => hover ((hgoes n).1 hgoing)⟩

theorem importLength_ends (p : Nat) (last : Option Char) (w : Text) :
    ScanEnds p last w (importLength p last w).1 (importLength p last w).2 := by
  induction w generalizing p last with
  | nil => exact ⟨Nat.le_refl _, nofun, nofun, fun _ => rfl⟩
  | cons x u ih =>
    -- a byte that the scan passes over
    have further : ∀ {p'}, parensNext p x = p' →
        (p = 0 → x ≠ ';' ∧ x ≠ '\x7b' ∧ x ≠ '\x7d' ∧ (x = '\n' → GoesOn last [] u)) →
        ScanEnds p last (x :: u) ((importLength p' (if isBlank x then last else some x) u).1 + 1)
          (importLength p' (if isBlank x then last else some x) u).2 := by
      rintro p' rfl hx
      exact (ih _ _).cons hx
    rw [importLength]
    dsimp only
    split
    · next hopen =>
      apply further (if_pos hopen)
      intro _
      rw [hopen]
      exact ⟨by decide, by decide, by decide, fun hfeed => absurd hfeed (by decide)⟩
    · next hopen =>
      split
      · next hclose =>
        apply further (by rw [parensNext, if_neg hopen, if_pos hclose])
        intro _
        rw [hclose]
        exact ⟨by decide, by decide, by decide, fun hfeed => absurd hfeed (by decide)⟩
      · next hclose =>
        have hafter : parensNext p x = p := by rw [parensNext, if_neg hopen, if_neg hclose]
        split
        · next hsome => exact further hafter fun hnone => absurd hnone (Nat.ne_of_gt hsome)
        · next hnone =>
          have hp : p = 0 := Nat.eq_zero_of_not_pos hnone
          split
          · next hsemicolon => exact scanEnds_here ⟨hp, .inl ⟨rfl, hsemicolon⟩⟩
          · next hsemicolon =>
            split
            · next hbrace =>
              rw [Bool.or_eq_true, decide_eq_true_eq, decide_eq_true_eq] at hbrace
              exact scanEnds_here ⟨hp, .inr ⟨rfl, hbrace.imp_right .inl⟩⟩
            · next hbrace =>
              rw [Bool.or_eq_true, decide_eq_true_eq, decide_eq_true_eq, not_or] at hbrace
              have hgoes : GoesOn last [] u ↔ last = some ',' ∨ (trimLeft u).head? = some ',' := by
                rw [GoesOn, head?_trimLeft]
                exact Iff.rfl
              split
              · next hfeed =>
                simp only [Bool.and_eq_true, decide_eq_true_eq] at hfeed
                refine scanEnds_here ⟨hp, .inr ⟨rfl, .inr (.inr ⟨hfeed.1.1, ?_⟩)⟩⟩
                rw [hgoes, not_or]
                exact ⟨hfeed.1.2, hfeed.2⟩
              · next hfeed =>
                apply further hafter
                intro _
                refine ⟨hsemicolon, hbrace.1, hbrace.2, ?_⟩
                intro hx
                simp only [Bool.and_eq_true, decide_eq_true_eq] at hfeed
                rw [hgoes]
                by_contra hover
                rw [not_or] at hover
                exact hfeed ⟨⟨hx, hover.1⟩, hover.2⟩

/-! ## What a statement takes -/

/-- The byte at an offset is in a group of parentheses of the code, all of which is in the span. -/
def InGroup (t : Text) (s : Span) (j : Nat) : Prop :=
  ∃ o, o < j ∧ s.start ≤ o ∧ (codeMask t)[o]? = some '(' ∧ ∃ m ∈ matching? t o '(' ')', j < m ∧ m < s.stop

instance (t : Text) (s : Span) (j : Nat) : Decidable (InGroup t s j) :=
  inferInstanceAs (Decidable (∃ o, o < j ∧ _ ∧ _ ∧ ∃ m ∈ matching? t o '(' ')', _))

/-- **An import statement spares the rules behind it.** -/
structure Import.Spares (t : Text) (i : Import) : Prop where
  /-- Each brace in it is in a group of parentheses that is closed in it. -/
  braces : ∀ j x, i.span.covers j = true → (codeMask t)[j]? = some x → x = '\x7b' ∨ x = '\x7d' → InGroup t i.span j
  /-- At each line feed in it, outside of such groups, its path list goes on. -/
  lines : ∀ j, i.span.covers j = true → (codeMask t)[j]? = some '\n' → ¬ InGroup t i.span j →
    GoesOn none (slice (codeMask t) (i.span.start + 7) j) ((codeMask t).drop (j + 1))
  /-- It ends with its semicolon, or behind it there are but blanks before a brace, before a line feed at which its path
  list is over, or before the end of the text. -/
  ends : byteBefore (codeMask t) i.span.stop = some ';' ∨
    ∃ e, i.span.stop ≤ e ∧ (∀ j x, i.span.stop ≤ j → j < e → (codeMask t)[j]? = some x → isBlank x = true) ∧
      ∀ x, (codeMask t)[e]? = some x → x = '\x7b' ∨ x = '\x7d' ∨
        x = '\n' ∧ ¬ GoesOn none (slice (codeMask t) (i.span.start + 7) e) ((codeMask t).drop (e + 1))

/-- A byte behind what is left of a piece of code that is trimmed at the right is blank. -/
theorem blank_behind_trimRight (h : (trimRight (w.take n)).length ≤ k) (hk : k < n) (hx : w[k]? = some x) :
    isBlank x = true := by
  obtain ⟨blanks, hcut, hblank⟩ := eq_trimRight_append (w.take n)
  have hbyte : (w.take n)[k]? = some x := by rw [List.getElem?_take_of_lt hk, hx]
  rw [hcut, List.getElem?_append_right h] at hbyte
  exact hblank x (List.mem_of_getElem? hbyte)

/-- A byte that is not blank is kept. -/
theorem lt_length_trimRight (hk : k < n) (hx : w[k]? = some x) (hsolid : isBlank x = false) :
    k < (trimRight (w.take n)).length := by
  by_contra hshort
  rw [blank_behind_trimRight (Nat.le_of_not_lt hshort) hk hx] at hsolid
  cases hsolid

/-- **Where a group is found**: its parentheses and what is open between them. -/
theorem group_of_matching (hopen : w[o]? = some '(') (hnone : openParens 0 (w.take o) = 0)
    (hclosed : closingOffset? '(' ')' 0 (w.drop o) = some n) :
    w[o + n]? = some ')' ∧ (∀ k, o < k → k ≤ o + n → 0 < openParens 0 (w.take k)) ∧
      openParens 0 (w.take (o + n + 1)) = 0 := by
  obtain ⟨hlt, hbyte⟩ := List.getElem?_eq_some_iff.1 hopen
  have hcloser := getElem?_of_closingOffset hclosed
  rw [List.getElem?_drop] at hcloser
  rw [List.drop_eq_getElem_cons hlt, hbyte, closingOffset?, if_pos rfl] at hclosed
  obtain ⟨m, hm, rfl⟩ := Option.map_eq_some_iff.1 hclosed
  obtain ⟨hinside, hend⟩ := openParens_of_closing (Nat.le_refl 1) hm
  have hone : openParens 0 (w.take (o + 1)) = 1 := by
    rw [openParens_succ 0 hopen, hnone]
    rfl
  have hfrom : ∀ l, openParens 0 (w.take (o + 1 + l)) = openParens 1 ((w.drop (o + 1)).take l) := by
    intro l
    rw [List.take_add, openParens_append, hone]
  refine ⟨hcloser, ?_, ?_⟩
  · intro k hk hkm
    obtain ⟨l, rfl⟩ : ∃ l, k = o + 1 + l := ⟨k - (o + 1), by omega⟩
    rw [hfrom]
    exact hinside l (by omega)
  · have hplace : o + (m + 1) + 1 = o + 1 + (m + 1) := by omega
    rw [hplace, hfrom, hend]

/-- **Behind an open parenthesis that is closed the scan goes on up to where it is closed.** -/
theorem ScanEnds.group (h : ScanEnds 0 last w n terminated) (hj : j < n) (hx : w[j]? = some x) (hparen : x ≠ ')')
    (hsome : 0 < openParens 0 (w.take j))
    (hclosed : ∀ o, o < n → w[o]? = some '(' → ∃ m, closingOffset? '(' ')' 0 (w.drop o) = some m) :
    ∃ o m, o < j ∧ j < o + m ∧ o + m < n ∧ w[o]? = some '(' ∧ w[o + m]? = some ')' ∧
      closingOffset? '(' ')' 0 (w.drop o) = some m := by
  obtain ⟨o, hlt, hopen, hnone, hinside⟩ := exists_outermost hsome
  obtain ⟨m, hm⟩ := hclosed o (by omega) hopen
  obtain ⟨hcloser, hgroup, hend⟩ := group_of_matching hopen hnone hm
  refine ⟨o, m, hlt, ?_, ?_, hopen, hcloser, hm⟩
  · by_contra hshort
    rcases Nat.eq_or_lt_of_le (Nat.le_of_not_lt hshort) with heq | hless
    · rw [heq, hx] at hcloser
      exact hparen (Option.some.inj hcloser)
    · have hopened := hinside (o + m + 1) (by omega) hless
      omega
  · -- the scan stops where no parenthesis is open
    by_contra hlong
    have hopened := hgroup n (by omega) (by omega)
    cases hstop : w[n]? with
    | none =>
      have hend := List.getElem?_eq_none_iff.1 hstop
      obtain ⟨hinside, -⟩ := List.getElem?_eq_some_iff.1 hcloser
      omega
    | some y =>
      have hzero := (h.stopped y hstop).1
      omega

/-- **With a parenthesis that is never closed the scan goes on to the end.** -/
theorem ScanEnds.unclosed (h : ScanEnds 0 last w n terminated) (ho : o < n) (hopen : w[o]? = some '(')
    (hunclosed : closingOffset? '(' ')' 0 (w.drop o) = none) : w[n]? = none := by
  cases hstop : w[n]? with
  | none => rfl
  | some y =>
    exfalso
    have hzero := (h.stopped y hstop).1
    obtain ⟨l, rfl⟩ : ∃ l, n = o + 1 + l := ⟨n - (o + 1), by omega⟩
    have hone : parensNext (openParens 0 (w.take o)) '(' = openParens 0 (w.take o) + 1 := if_pos rfl
    rw [List.take_add, openParens_append, openParens_succ 0 hopen, hone] at hzero
    obtain ⟨m, hm⟩ := closing_of_openParens (w := w.drop (o + 1)) (d := openParens 0 (w.take o) + 1) (k := l)
      (Nat.le_refl 1) (Nat.le_add_left _ _) (by omega)
    obtain ⟨hlt, hbyte⟩ := List.getElem?_eq_some_iff.1 hopen
    have hclosed : closingOffset? '(' ')' 0 (w.drop o) = some (m + 1) := by
      rw [List.drop_eq_getElem_cons hlt, hbyte, closingOffset?, if_pos rfl]
      show (closingOffset? '(' ')' ((1 : Nat) : Int) (w.drop (o + 1))).map (· + 1) = _
      rw [hm]
      rfl
    rw [hunclosed] at hclosed
    cases hclosed

/-- **What the scan has come to for an import statement**, and where in its span the bytes are that the scan counts. -/
structure Import.Scanned (t : Text) (i : Import) (n : Nat) (terminated : Bool) : Prop where
  ends : ScanEnds 0 none ((codeMask t).drop (i.span.start + 7)) n terminated
  stop : i.span.stop = i.span.start + 7 +
    (if terminated then n + 1 else (trimRight (((codeMask t).drop (i.span.start + 7)).take n)).length)
  counted : ∀ j x, i.span.covers j = true → (codeMask t)[j]? = some x →
    x = '(' ∨ x = '\x7b' ∨ x = '\x7d' ∨ x = '\n' → ∃ l, j = i.span.start + 7 + l ∧ l < n

theorem Import.scanned {i : Import} (h : i ∈ Import.find t) : ∃ n terminated, i.Scanned t n terminated := by
  obtain ⟨c, n, hc, hlook⟩ := mem_sweep h
  obtain ⟨k, terminated, ⟨r, hr⟩, hlength, hspan, rfl⟩ := Import.look_parts hc hlook
  have hscan := importLength_ends 0 none ((codeMask t).drop (c.pos + 7))
  rw [hlength] at hscan
  refine ⟨k, terminated, ?_, ?_, ?_⟩
  · rw [hspan]
    exact hscan
  · rw [hspan]
    exact (Nat.add_assoc _ _ _).symm
  · rw [hspan]
    intro j x hcovers hx hcounted
    simp only [Span.covers_iff] at hcovers
    -- none of these bytes is in the keyword
    have hfirst : c.pos + 7 ≤ j := by
      by_contra hshort
      obtain ⟨m, rfl⟩ : ∃ m, j = c.pos + m := ⟨j - c.pos, by omega⟩
      rw [← List.getElem?_drop, ← hr, List.getElem?_append_left (by show m < 7; omega)] at hx
      have hmem := List.mem_of_getElem? hx
      rcases hcounted with rfl | rfl | rfl | rfl <;> exact absurd hmem (by decide)
    refine ⟨j - (c.pos + 7), by dsimp only; omega, ?_⟩
    by_contra hlong
    cases terminated with
    | true =>
      -- the byte would be the semicolon
      obtain rfl : j = c.pos + 7 + k := by
        simp only [if_true] at hcovers
        omega
      rw [← List.getElem?_drop] at hx
      obtain ⟨-, ⟨-, rfl⟩ | ⟨hno, -⟩⟩ := hscan.stopped x hx
      · rcases hcounted with hx | hx | hx | hx <;> cases hx
      · cases hno
    | false =>
      have htrim := length_trimRight_le (((codeMask t).drop (c.pos + 7)).take k)
      rw [List.length_take] at htrim
      simp only [Bool.false_eq_true, if_false] at hcovers
      omega

/-- What is closed in the code is closed behind the place too. -/
theorem closing_of_matching (h : (codeMask t)[o]? = some '(') :
    matching? t o '(' ')' = (closingOffset? '(' ')' 0 ((codeMask t).drop o)).map (· + o) := by
  have hbyte : t[o]? = some '(' := getElem?_of_run h (by decide)
  rw [matching?, if_pos hbyte]

section

variable {i : Import}

/-- A byte that is not blank, up to which the scan has come, is in the statement. -/
theorem Import.Scanned.lt_stop (h : i.Scanned t n terminated) (hk : k < n)
    (hx : ((codeMask t).drop (i.span.start + 7))[k]? = some x) (hsolid : isBlank x = false) :
    i.span.start + 7 + k < i.span.stop := by
  have hlong := lt_length_trimRight hk hx hsolid
  rw [h.stop]
  split <;> omega

/-- **If all its parentheses are closed**, a byte at which one is open is in a group in the statement. -/
theorem Import.Scanned.inGroup (h : i.Scanned t n terminated)
    (hclosed : ∀ o, i.span.covers o = true → (codeMask t)[o]? = some '(' → ∃ m, matching? t o '(' ')' = some m)
    (hk : k < n) (hx : ((codeMask t).drop (i.span.start + 7))[k]? = some x) (hparen : x ≠ ')')
    (hsome : 0 < openParens 0 (((codeMask t).drop (i.span.start + 7)).take k)) :
    InGroup t i.span (i.span.start + 7 + k) := by
  have hinside : ∀ o, o < n → ((codeMask t).drop (i.span.start + 7))[o]? = some '(' →
      ∃ m, closingOffset? '(' ')' 0 (((codeMask t).drop (i.span.start + 7)).drop o) = some m := by
    intro o ho hopen
    have hcovers : i.span.covers (i.span.start + 7 + o) = true :=
      Span.covers_iff.2 ⟨by omega, h.lt_stop ho hopen rfl⟩
    rw [List.getElem?_drop] at hopen
    obtain ⟨m, hm⟩ := hclosed _ hcovers hopen
    rw [closing_of_matching hopen] at hm
    obtain ⟨m', hm', -⟩ := Option.map_eq_some_iff.1 hm
    rw [List.drop_drop]
    exact ⟨m', hm'⟩
  obtain ⟨o, m, hok, hkm, hmn, hopen, hcloser, hm⟩ := h.ends.group hk hx hparen hsome hinside
  have hlt := h.lt_stop hmn hcloser rfl
  rw [List.getElem?_drop] at hopen
  rw [List.drop_drop] at hm
  refine ⟨i.span.start + 7 + o, by omega, by omega, hopen, i.span.start + 7 + (o + m), ?_, by omega, hlt⟩
  rw [closing_of_matching hopen, hm, Option.map_some, Nat.add_comm m, Nat.add_assoc]
  rfl

/-- **A statement that closes its parentheses spares the rules behind it.** -/
theorem spares_of_closed (h : i ∈ Import.find t)
    (hclosed : ∀ o, i.span.covers o = true → (codeMask t)[o]? = some '(' → ∃ m, matching? t o '(' ')' = some m) :
    i.Spares t := by
  obtain ⟨n, terminated, hscanned⟩ := Import.scanned h
  have hgroup := fun {k x} => hscanned.inGroup (k := k) (x := x) hclosed
  obtain ⟨hscan, hstop, hplace⟩ := hscanned
  refine ⟨?_, ?_, ?_⟩
  · -- a brace that the scan has passed was in a group
    intro j x hj hx hbrace
    obtain ⟨l, rfl, hl⟩ := hplace j x hj hx (.inr (hbrace.imp_right .inl))
    rw [← List.getElem?_drop] at hx
    have hparen : x ≠ ')' := by rcases hbrace with rfl | rfl <;> decide
    apply hgroup hl hx hparen
    by_contra hnone
    obtain ⟨-, hopen, hclose, -⟩ := hscan.passed l x hl hx (Nat.eq_zero_of_not_pos hnone)
    exact hbrace.elim hopen hclose
  · -- a line feed outside all groups was passed because the list goes on there
    intro j hj hfeed houtside
    obtain ⟨l, rfl, hl⟩ := hplace j '\n' hj hfeed (.inr (.inr (.inr rfl)))
    rw [← List.getElem?_drop] at hfeed
    have hnone : openParens 0 (((codeMask t).drop (i.span.start + 7)).take l) = 0 := by
      by_contra hsome
      exact houtside (hgroup hl hfeed (by decide) (Nat.pos_of_ne_zero hsome))
    obtain ⟨-, -, -, hgoes⟩ := hscan.passed l '\n' hl hfeed hnone
    have hgoing := hgoes rfl
    rw [List.drop_drop] at hgoing
    rw [slice, Nat.add_sub_cancel_left, Nat.add_assoc]
    exact hgoing
  · -- the statement ends with its semicolon, or only blanks are between its end and where the scan has stopped
    cases terminated with
    | true =>
      left
      simp only [if_true] at hstop
      cases hx : ((codeMask t).drop (i.span.start + 7))[n]? with
      | none => cases hscan.ended hx
      | some x =>
        obtain ⟨-, ⟨-, rfl⟩ | ⟨hno, -⟩⟩ := hscan.stopped x hx
        · rw [List.getElem?_drop] at hx
          rw [hstop]
          exact hx
        · cases hno
    | false =>
      right
      simp only [Bool.false_eq_true, if_false] at hstop
      have htrim := length_trimRight_le (((codeMask t).drop (i.span.start + 7)).take n)
      rw [List.length_take] at htrim
      refine ⟨i.span.start + 7 + n, by omega, ?_, ?_⟩
      · intro j x hj hjn hx
        obtain ⟨l, rfl⟩ : ∃ l, j = i.span.start + 7 + l := ⟨j - (i.span.start + 7), by omega⟩
        rw [← List.getElem?_drop] at hx
        exact blank_behind_trimRight (n := n) (by omega) (by omega) hx
      · intro x hx
        rw [← List.getElem?_drop] at hx
        obtain ⟨-, ⟨hno, -⟩ | ⟨-, hend⟩⟩ := hscan.stopped x hx
        · cases hno
        · rw [List.drop_drop] at hend
          rw [slice, Nat.add_sub_cancel_left, Nat.add_assoc]
          exact hend

/-- **A statement with a parenthesis that is never closed takes the rest of the code.** -/
theorem rest_taken_of_unclosed (h : i ∈ Import.find t) (ho : i.span.covers o = true)
    (hopen : (codeMask t)[o]? = some '(') (hunclosed : matching? t o '(' ')' = none) (hj : i.span.stop ≤ j)
    (hx : (codeMask t)[j]? = some x) : isBlank x = true := by
  obtain ⟨n, terminated, hscan, hstop, hplace⟩ := Import.scanned h
  obtain ⟨l, rfl, hl⟩ := hplace o '(' ho hopen (.inl rfl)
  rw [closing_of_matching hopen, Option.map_eq_none_iff, ← List.drop_drop] at hunclosed
  rw [← List.getElem?_drop] at hopen
  have hend := hscan.unclosed hl hopen hunclosed
  rw [hscan.ended hend] at hstop
  simp only [Bool.false_eq_true, if_false] at hstop
  obtain ⟨m, rfl⟩ : ∃ m, j = i.span.start + 7 + m := ⟨j - (i.span.start + 7), by omega⟩
  rw [← List.getElem?_drop] at hx
  have hlast := List.getElem?_eq_none_iff.1 hend
  obtain ⟨hm, -⟩ := List.getElem?_eq_some_iff.1 hx
  exact blank_behind_trimRight (n := n) (by omega) (by omega) hx

end

/-- **An import statement spares the rules behind it**, if each of its parentheses is closed somewhere in the code. With
one that is never closed it takes the code to the end of the text. -/
theorem imports_spare_rules {i : Import} (h : i ∈ Import.find t) :
    ((∀ o, i.span.covers o = true → (codeMask t)[o]? = some '(' → ∃ m, matching? t o '(' ')' = some m) →
      i.Spares t) ∧
    ((∃ o, i.span.covers o = true ∧ (codeMask t)[o]? = some '(' ∧ matching? t o '(' ')' = none) →
      ∀ j x, i.span.stop ≤ j → (codeMask t)[j]? = some x → isBlank x = true) := by
  constructor
  · exact spares_of_closed h
  · rintro ⟨o, ho, hopen, hunclosed⟩ j x hj hx
    exact rest_taken_of_unclosed h ho hopen hunclosed hj hx

/-- A sheet with a list of two paths on two lines, one of them with braces in its parentheses, before a rule. -/
def listSheet : Text := "@import url(a\x7b1\x7d.css),\n  \"b\"\n.c \x7b top: 0; \x7d\n".toList

/-- A sheet with a parenthesis that is never closed, before a rule. -/
def openSheet : Text := "@import url(a.css\n.a \x7b b: c; \x7d\n".toList

theorem listSheet_spared :
    (⟨⟨0, 28⟩, ["a\x7b1\x7d.css".toList, "b".toList], 1⟩ : Import).Spares listSheet ∧
    ∀ j x, 30 ≤ j → (codeMask openSheet)[j]? = some x → isBlank x = true := by
  have hlist : (⟨⟨0, 28⟩, ["a\x7b1\x7d.css".toList, "b".toList], 1⟩ : Import) ∈ Import.find listSheet := by
    decide +kernel
  have hopen : (⟨⟨0, 30⟩, ["url(a.css\n.a \x7b b: c; \x7d".toList], 1⟩ : Import) ∈ Import.find openSheet := by
    decide +kernel
  constructor
  · apply (imports_spare_rules hlist).1
    intro o ho hparen
    have hplaces : ∀ o, o < 28 → (codeMask listSheet)[o]? = some '(' → o = 11 := by decide +kernel
    rw [hplaces o (Span.covers_iff.1 ho).2 hparen]
    exact ⟨20, by decide +kernel⟩
  · exact (imports_spare_rules hopen).2 ⟨11, by decide +kernel⟩

/-- **A parenthesis that is never closed makes an import statement take the rule behind it**, which is removed with
it. -/
theorem open_parenthesis_swallows_rule :
    ∃ i ∈ Import.find openSheet, i.span = ⟨0, 30⟩ ∧ ¬ i.Spares openSheet ∧ (removeImports openSheet).1 = [] := by
  refine ⟨⟨⟨0, 30⟩, ["url(a.css\n.a \x7b b: c; \x7d".toList], 1⟩, by decide +kernel, rfl, ?_, by decide +kernel⟩
  intro hspares
  have hgroup := hspares.braces 21 '\x7b' (by decide) (by decide +kernel) (.inl rfl)
  revert hgroup
  decide +kernel

end Flatsheet.Style
