import Flatsheet.Check.Remaining
import Flatsheet.Proofs.Style.Sweep
import Flatsheet.Proofs.Text.Loss

/-!
# `Proofs.Style.Abreast` — scanners on a text that loses a blank

Two cursors go through a text, one before and one after it has lost a blank at the margin of a line. They are
abreast (`Abreast`) while they stand at the same byte, and each move that a scanner makes keeps them abreast.
A scanner that finds nothing at a blank therefore finds the same things in both texts (`sweep_loses`).
-/

namespace Flatsheet

open Text Style Check

variable {α β : Type} {a b w w' word : Text} {x z : Char} {c c' d d' : Cursor} {n : Nat} {p : Char → Bool}

/-! ## Identifiers -/

/-- A blank is no part of an identifier. -/
theorem not_isIdent_of_blank (h : isBlank z = true) : isIdent z = false := by
  simp only [isBlank, Bool.or_eq_true, decide_eq_true_eq] at h
  rcases h with ((((rfl | rfl) | rfl) | rfl) | rfl) | rfl <;> decide

theorem not_isAlpha_of_blank (h : isBlank z = true) : z.isAlpha = false := by
  simp only [isBlank, Bool.or_eq_true, decide_eq_true_eq] at h
  rcases h with ((((rfl | rfl) | rfl) | rfl) | rfl) | rfl <;> decide

theorem skips_ident : isIdent '\n' = true → ∀ z, isBlank z = true → isIdent z = true :=
  fun h => absurd h (by decide)

/-! ## Where a cursor stands -/

/-- **The cursor goes through the text.** -/
structure Cursor.Reads (c : Cursor) (w : Text) : Prop where
  text : c.seen.reverse ++ c.rest = w
  pos : c.pos = c.seen.length

namespace Cursor

theorem Reads.advance (h : c.Reads w) (n : Nat) : (c.advance n).Reads w := by
  constructor
  · show ((c.rest.take n).reverse ++ c.seen).reverse ++ c.rest.drop n = w
    rw [List.reverse_append, List.reverse_reverse, List.append_assoc, List.take_append_drop]
    exact h.text
  · show c.pos + (c.rest.take n).length = ((c.rest.take n).reverse ++ c.seen).length
    rw [List.length_append, List.length_reverse, h.pos, Nat.add_comm]

theorem Reads.at (h : c.Reads w) : c.At w := by
  obtain ⟨rfl, hpos⟩ := h
  have hlength : c.pos = c.seen.reverse.length := by rw [List.length_reverse, hpos]
  constructor
  · rw [List.length_append]
    omega
  · rw [hlength, List.drop_left]

theorem advance_add (c : Cursor) (m n : Nat) : c.advance (m + n) = (c.advance m).advance n := by
  unfold Cursor.advance
  simp only [Cursor.mk.injEq]
  refine ⟨?_, ?_, ?_⟩
  · rw [List.take_add, List.reverse_append, List.append_assoc]
  · rw [List.take_add, List.length_append, Nat.add_assoc]
  · rw [List.drop_drop]

theorem length_rest_lt {y : Char} (hy : c.byte? = some y) (hn : 0 < n) :
    (c.advance n).rest.length < c.rest.length := by
  obtain ⟨r, hr⟩ := List.head?_eq_some_iff.1 hy
  show (c.rest.drop n).length < _
  rw [List.length_drop, hr, List.length_cons]
  omega

/-- A cursor comes to each place further on. -/
theorem Reads.advance_eq (h : c.Reads w) (h' : d.Reads w) (hle : c.pos ≤ d.pos) : c.advance (d.pos - c.pos) = d := by
  have hprefix : c.seen.reverse <+: d.seen.reverse := by
    apply List.prefix_of_prefix_length_le ⟨c.rest, h.text⟩ ⟨d.rest, h'.text⟩
    rw [List.length_reverse, List.length_reverse, ← h.pos, ← h'.pos]
    exact hle
  obtain ⟨between, hseen⟩ := hprefix
  have hrest : c.rest = between ++ d.rest := by
    have htext : c.seen.reverse ++ c.rest = c.seen.reverse ++ (between ++ d.rest) := by
      rw [h.text, ← List.append_assoc, hseen, h'.text]
    exact List.append_cancel_left htext
  have hlength : d.pos - c.pos = between.length := by
    have hcount := congrArg List.length hseen
    rw [List.length_append, List.length_reverse, List.length_reverse, ← h.pos, ← h'.pos] at hcount
    omega
  have hback : d.seen = between.reverse ++ c.seen := by
    rw [← List.reverse_reverse d.seen, ← hseen, List.reverse_append, List.reverse_reverse]
  have hpos : c.pos + between.length = d.pos := by omega
  unfold Cursor.advance
  rw [hlength, hrest, List.take_left, List.drop_left]
  show (⟨between.reverse ++ c.seen, c.pos + between.length, d.rest⟩ : Cursor) = d
  rw [← hback, hpos]

end Cursor

/-! ## Abreast -/

/-- **Two cursors stand at the same byte**, the second one in a text that has lost the blank `x` between `a`
and `b`. -/
inductive Abreast (a : Text) (x : Char) (b : Text) : Cursor → Cursor → Prop
  | before (u v : Text) (cut : u ++ v = a) (blank : isBlank x = true) (ends : Ends b) :
      Abreast a x b ⟨u.reverse, u.length, v ++ x :: b⟩ ⟨u.reverse, u.length, v ++ b⟩
  | behind (u v : Text) (cut : u ++ v = b) (blank : isBlank x = true) (margin : a = [] ∨ Ends b) :
      Abreast a x b ⟨(a ++ x :: u).reverse, a.length + 1 + u.length, v⟩ ⟨(a ++ u).reverse, a.length + u.length, v⟩

/-- Whether a byte is of a class without blanks depends on the bytes that are not blank. -/
theorem any_eq_of_shown {o o' : Option Char} (h : ∀ z, isBlank z = false → (o = some z ↔ o' = some z))
    (hp : ∀ y, isBlank y = true → p y = false) : o.any p = o'.any p := by
  rw [Bool.eq_iff_iff, Option.any_eq_true, Option.any_eq_true]
  have hshown : ∀ {z}, p z = true → isBlank z = false := by
    intro z hz
    rw [Bool.eq_false_iff]
    intro blank
    rw [hp z blank] at hz
    cases hz
  constructor
  · rintro ⟨z, ho, hz⟩
    exact ⟨z, (h z (hshown hz)).1 ho, hz⟩
  · rintro ⟨z, ho, hz⟩
    exact ⟨z, (h z (hshown hz)).2 ho, hz⟩

theorem startsWith_dropWhile_append {r : Text} (hword : IsWord word) (h : Stops r)
    (h' : Stops (r.dropWhile p)) (v : Text) :
    startsWith ((v ++ r).dropWhile p) word = startsWith (v.dropWhile p) word := by
  induction v with
  | nil => exact startsWith_append_of_stops hword h' []
  | cons y v ih =>
    rw [List.cons_append, List.dropWhile_cons, List.dropWhile_cons]
    split
    · exact ih
    · exact startsWith_append_of_stops hword h (y :: v)

namespace Abreast

theorem reads (h : Abreast a x b c c') : c.Reads (a ++ x :: b) ∧ c'.Reads (a ++ b) := by
  cases h with
  | before u v cut =>
    subst cut
    refine ⟨⟨?_, ?_⟩, ⟨?_, ?_⟩⟩ <;> simp
  | behind u v cut =>
    subst cut
    refine ⟨⟨?_, ?_⟩, ⟨?_, ?_⟩⟩
    · simp
    · simp
      omega
    · simp
    · simp [Nat.add_comm]

theorem pos_eq (h : Abreast a x b c c') : c'.pos = squeeze a.length c.pos := by
  cases h with
  | before u v cut =>
    have hle : u.length ≤ a.length := by simp [← cut]
    exact (if_neg (Nat.not_lt.2 hle)).symm
  | behind u v =>
    show a.length + u.length = if a.length < a.length + 1 + u.length then a.length + 1 + u.length - 1 else _
    rw [if_pos (by omega)]
    omega

/-- From each place a scanner comes to a place further on. -/
theorem advance_eq (h : Abreast a x b c c') (h' : Abreast a x b d d') (hle : c.pos ≤ d.pos) (hle' : c'.pos ≤ d'.pos) :
    c.advance (d.pos - c.pos) = d ∧ c'.advance (d'.pos - c'.pos) = d' :=
  ⟨h.reads.1.advance_eq h'.reads.1 hle, h.reads.2.advance_eq h'.reads.2 hle'⟩

theorem startsWith_eq (h : Abreast a x b c c') (hword : IsWord word) :
    startsWith c.rest word = startsWith c'.rest word := by
  cases h with
  | before u v cut blank ends =>
    show startsWith (v ++ x :: b) word = startsWith (v ++ b) word
    rw [startsWith_append_of_stops hword (stops_cons blank b), startsWith_append_of_stops hword ends.stops]
  | behind u v => rfl

theorem takeWhile_eq (h : Abreast a x b c c') (hp : ∀ y, isBlank y = true → p y = false) :
    c.rest.takeWhile p = c'.rest.takeWhile p := by
  cases h with
  | before u v cut blank ends =>
    show (v ++ x :: b).takeWhile p = (v ++ b).takeWhile p
    rw [takeWhile_append_of_stops hp (stops_cons blank b), takeWhile_append_of_stops hp ends.stops]
  | behind u v => rfl

/-- They see the same byte, unless it is blank. -/
theorem byte?_iff (h : Abreast a x b c c') (hz : isBlank z = false) : c.byte? = some z ↔ c'.byte? = some z := by
  have hhead : ∀ c : Cursor, c.byte? = some z ↔ startsWith c.rest [z] = true := by
    intro c
    unfold Cursor.byte? startsWith
    cases c.rest with
    | nil => simp
    | cons y r =>
      show some y = some z ↔ (z == y && [].isPrefixOf r) = true
      rw [List.isPrefixOf_nil_left, Bool.and_true, beq_iff_eq, Option.some_inj]
      exact eq_comm
  have hword : IsWord [z] := by simpa [IsWord] using hz
  rw [hhead, hhead, h.startsWith_eq hword]

theorem byte?_any (h : Abreast a x b c c') (hp : ∀ y, isBlank y = true → p y = false) :
    c.byte?.any p = c'.byte?.any p := any_eq_of_shown (fun _ hz => h.byte?_iff hz) hp

/-- So is the byte before them, unless it is blank. -/
theorem byteBefore?_iff (h : Abreast a x b c c') (hz : isBlank z = false) {y : Char} (hy : isBlank y = false)
    (hbyte : c.byte? = some y) : c.byteBefore? = some z ↔ c'.byteBefore? = some z := by
  cases h with
  | before u v => rfl
  | behind u v cut blank margin =>
    show (a ++ x :: u).reverse.head? = some z ↔ (a ++ u).reverse.head? = some z
    rcases List.eq_nil_or_concat u with rfl | ⟨u, last, rfl⟩
    · -- right behind the blank, so the text began with it
      have hstart : a = [] := by
        rcases margin with hnil | ends
        · exact hnil
        · have hfirst := ends.stops y (by rw [← cut]; exact hbyte)
          rw [hy] at hfirst
          cases hfirst
      have hne : x ≠ z := by
        rintro rfl
        rw [hz] at blank
        cases blank
      simp [hstart, hne]
    · simp

/-- What stands before them, past spaces and tabs, ends with the same words. -/
theorem seen_word (h : Abreast a x b c c') (hword : IsWord word) {y : Char}
    (hy : isBlank y = false) (hbyte : c.byte? = some y) :
    startsWith (c.seen.dropWhile isSpaceOrTab) word = startsWith (c'.seen.dropWhile isSpaceOrTab) word := by
  cases h with
  | before u v => rfl
  | behind u v cut blank margin =>
    show startsWith ((a ++ x :: u).reverse.dropWhile isSpaceOrTab) word =
      startsWith ((a ++ u).reverse.dropWhile isSpaceOrTab) word
    rw [List.reverse_append, List.reverse_cons, List.append_assoc, List.singleton_append, List.reverse_append]
    rcases margin with rfl | ends
    · -- the text began with the blank
      have hstops : Stops (([x] : Text).dropWhile isSpaceOrTab) := by
        rw [List.dropWhile_cons]
        split
        · exact stops_nil
        · exact stops_cons blank []
      rw [List.reverse_nil, startsWith_dropWhile_append hword (stops_cons blank []) hstops, List.append_nil]
    · cases u with
      | nil =>
        have hfirst := ends.stops y (by rw [← cut]; exact hbyte)
        rw [hy] at hfirst
        cases hfirst
      | cons first u =>
        -- the end of the line is between the cursors and the blank
        have hfirst : first = '\n' := by
          rcases ends with rfl | ⟨r, rfl⟩
          · cases cut
          · exact (List.cons.inj cut).1
        subst hfirst
        have hline : ∀ s : Text, startsWith ((u.reverse ++ '\n' :: s).dropWhile isSpaceOrTab) word =
            startsWith (u.reverse.dropWhile isSpaceOrTab) word := by
          intro s
          have hstops : Stops ('\n' :: s) := stops_cons rfl s
          have hkept : Stops (('\n' :: s).dropWhile isSpaceOrTab) := hstops
          exact startsWith_dropWhile_append hword hstops hkept _
        rw [List.reverse_cons, List.append_assoc, List.append_assoc, List.singleton_append, List.singleton_append,
          hline, hline]

/-! ## Moves -/

theorem advance_before {u v : Text} (cut : u ++ v = a) (blank : isBlank x = true) (ends : Ends b) (hn : n ≤ v.length) :
    Abreast a x b (Cursor.advance ⟨u.reverse, u.length, v ++ x :: b⟩ n)
      (Cursor.advance ⟨u.reverse, u.length, v ++ b⟩ n) := by
  have hmove : ∀ r, Cursor.advance ⟨u.reverse, u.length, v ++ r⟩ n =
      ⟨(u ++ v.take n).reverse, (u ++ v.take n).length, v.drop n ++ r⟩ := by
    intro r
    simp [Cursor.advance, List.take_append_of_le_length hn, List.drop_append_of_le_length hn]
  rw [hmove, hmove]
  refine .before _ _ ?_ blank ends
  rw [List.append_assoc, List.take_append_drop]
  exact cut

theorem advance_across {u v : Text} (cut : u ++ v = a) (blank : isBlank x = true) (ends : Ends b) (n : Nat) :
    Abreast a x b (Cursor.advance ⟨u.reverse, u.length, v ++ x :: b⟩ (v.length + (n + 1)))
      (Cursor.advance ⟨u.reverse, u.length, v ++ b⟩ (v.length + n)) := by
  have hmove : Cursor.advance ⟨u.reverse, u.length, v ++ x :: b⟩ (v.length + (n + 1)) =
      ⟨(a ++ x :: b.take n).reverse, a.length + 1 + (b.take n).length, b.drop n⟩ := by
    subst cut
    simp only [Cursor.advance, List.take_length_add_append, List.drop_length_add_append, List.take_succ_cons,
      List.drop_succ_cons, Cursor.mk.injEq]
    refine ⟨by simp, ?_, trivial⟩
    simp
    omega
  have hmove' : Cursor.advance ⟨u.reverse, u.length, v ++ b⟩ (v.length + n) =
      ⟨(a ++ b.take n).reverse, a.length + (b.take n).length, b.drop n⟩ := by
    subst cut
    simp [Cursor.advance, List.take_length_add_append, List.drop_length_add_append, Nat.add_assoc]
  rw [hmove, hmove']
  exact .behind _ _ (List.take_append_drop n b) blank (.inr ends)

theorem advance_behind {u v : Text} (cut : u ++ v = b) (blank : isBlank x = true) (margin : a = [] ∨ Ends b)
    (n : Nat) : Abreast a x b
      (Cursor.advance ⟨(a ++ x :: u).reverse, a.length + 1 + u.length, v⟩ n)
      (Cursor.advance ⟨(a ++ u).reverse, a.length + u.length, v⟩ n) := by
  have hmove : ∀ (s : Text) (k : Nat), Cursor.advance ⟨s.reverse, k + u.length, v⟩ n =
      ⟨(s ++ v.take n).reverse, k + (u ++ v.take n).length, v.drop n⟩ := by
    intro s k
    simp [Cursor.advance, Nat.add_assoc]
  rw [hmove, hmove, List.append_assoc, List.append_assoc, List.cons_append]
  refine .behind _ _ ?_ blank margin
  rw [List.append_assoc, List.take_append_drop]
  exact cut

/-- They stay abreast over bytes that are not blank. -/
theorem advance (h : Abreast a x b c c') (hn : ∀ y ∈ c.rest.take n, isBlank y = false) :
    Abreast a x b (c.advance n) (c'.advance n) := by
  cases h with
  | before u v cut blank ends =>
    refine advance_before cut blank ends (Nat.le_of_not_lt ?_)
    intro hlt
    have hmem : x ∈ (v ++ x :: b).take n := by
      obtain ⟨m, rfl⟩ : ∃ m, n = v.length + (m + 1) := ⟨n - v.length - 1, by omega⟩
      rw [List.take_length_add_append, List.take_succ_cons]
      simp
    rw [hn x hmem] at blank
    cases blank
  | behind u v cut blank margin => exact advance_behind cut blank margin n

/-- So they do behind a word. -/
theorem advance_word (h : Abreast a x b c c') (hword : IsWord word) (hstarts : startsWith c.rest word = true) :
    Abreast a x b (c.advance word.length) (c'.advance word.length) := by
  obtain ⟨r, hr⟩ := List.isPrefixOf_iff_prefix.1 hstarts
  apply h.advance
  rw [← hr, List.take_left]
  exact hword

/-- And behind a run of bytes of a class, if the class has all blanks whenever it has the line feed. -/
theorem skip (h : Abreast a x b c c') (hp : p '\n' = true → ∀ y, isBlank y = true → p y = true) :
    Abreast a x b (c.skip p) (c'.skip p) := by
  cases h with
  | before u v cut blank ends =>
    unfold Cursor.skip spanLength
    rw [List.takeWhile_append, List.takeWhile_append]
    split
    · rw [List.takeWhile_cons]
      split
      · rw [List.length_append, List.length_append, List.length_cons]
        exact advance_across cut blank ends _
      · next hx =>
        -- both stop at the margin
        have hnone : b.takeWhile p = [] := by
          rcases ends with rfl | ⟨r, rfl⟩
          · rfl
          · have hnewline : p '\n' ≠ true := fun hnl => hx (hp hnl x blank)
            simp [hnewline]
        rw [hnone, List.append_nil]
        exact advance_before cut blank ends (Nat.le_refl _)
    · exact advance_before cut blank ends (List.takeWhile_sublist p).length_le
  | behind u v cut blank margin => exact advance_behind cut blank margin _

end Abreast

/-- Where an offset was found before the loss of the byte at `n`. -/
def widen (n k : Nat) : Nat := if k < n then k else k + 1

theorem widen_succ (y : Char) (v : Text) : widen (y :: v).length ∘ (· + 1) = (· + 1) ∘ widen v.length := by
  funext k
  simp only [Function.comp, widen, List.length_cons, Nat.add_lt_add_iff_right]
  split <;> rfl

theorem closingOffset?_loss {opener closer : Char} (hopener : isBlank opener = false)
    (hcloser : isBlank closer = false) (blank : isBlank x = true) (d : Int) (v b : Text) :
    closingOffset? opener closer d (v ++ x :: b) =
      (closingOffset? opener closer d (v ++ b)).map (widen v.length) := by
  induction v generalizing d with
  | nil =>
    have hopen : x ≠ opener := by
      rintro rfl
      rw [hopener] at blank
      cases blank
    have hclose : x ≠ closer := by
      rintro rfl
      rw [hcloser] at blank
      cases blank
    rw [List.nil_append, closingOffset?, if_neg hopen, if_neg hclose]
    rfl
  | cons y v ih =>
    rw [List.cons_append, List.cons_append, closingOffset?, closingOffset?]
    split
    · rw [ih, Option.map_map, Option.map_map, widen_succ]
    · split
      · split
        · rfl
        · rw [ih, Option.map_map, Option.map_map, widen_succ]
      · rw [ih, Option.map_map, Option.map_map, widen_succ]

namespace Abreast

theorem advance_widen {u v : Text} (cut : u ++ v = a) (blank : isBlank x = true) (ends : Ends b) (n : Nat) :
    Abreast a x b (Cursor.advance ⟨u.reverse, u.length, v ++ x :: b⟩ (widen v.length n))
        (Cursor.advance ⟨u.reverse, u.length, v ++ b⟩ n) ∧
      Abreast a x b (Cursor.advance ⟨u.reverse, u.length, v ++ x :: b⟩ (widen v.length n + 1))
        (Cursor.advance ⟨u.reverse, u.length, v ++ b⟩ (n + 1)) := by
  unfold widen
  split
  · next hlt => exact ⟨advance_before cut blank ends (Nat.le_of_lt hlt), advance_before cut blank ends hlt⟩
  · next hle =>
    obtain ⟨m, rfl⟩ : ∃ m, n = v.length + m := ⟨n - v.length, by omega⟩
    exact ⟨advance_across cut blank ends m, advance_across cut blank ends (m + 1)⟩

/-- **They are abreast at what a scan finds ahead and behind it**, if the scan goes over the lost blank. -/
theorem reach {f : Text → Option Nat} (h : Abreast a x b c c')
    (hf : ∀ v, isBlank x = true → Ends b → f (v ++ x :: b) = (f (v ++ b)).map (widen v.length)) :
    Option.Rel (fun n n' => Abreast a x b (c.advance n) (c'.advance n') ∧
      Abreast a x b (c.advance (n + 1)) (c'.advance (n' + 1))) (f c.rest) (f c'.rest) := by
  cases h with
  | before u v cut blank ends =>
    dsimp only
    rw [hf v blank ends]
    cases f (v ++ b) with
    | none => exact .none
    | some n => exact .some (advance_widen cut blank ends n)
  | behind u v cut blank margin =>
    dsimp only
    cases f v with
    | none => exact .none
    | some n => exact .some ⟨advance_behind cut blank margin n, advance_behind cut blank margin (n + 1)⟩

/-- **They are abreast behind a group**, or neither finds its end. -/
theorem group? {opener closer : Char} (h : Abreast a x b c c') (hopener : isBlank opener = false)
    (hcloser : isBlank closer = false) :
    Option.Rel (Abreast a x b) (c.group? opener closer) (c'.group? opener closer) := by
  have hreach := h.reach fun v blank _ => closingOffset?_loss hopener hcloser blank 0 v b
  unfold Cursor.group?
  generalize closingOffset? opener closer 0 c.rest = o at hreach ⊢
  generalize closingOffset? opener closer 0 c'.rest = o' at hreach ⊢
  cases hreach with
  | none => exact .none
  | some habreast => exact .some habreast.2

end Abreast

/-! ## Walking -/

/-- **What holds of all pairs of cursors that are abreast**: it holds at the end, the first cursor can step over
the lost blank alone, and elsewhere it follows from what holds further on. -/
theorem Abreast.walk {P : Cursor → Cursor → Prop} (done : ∀ c c', c.rest = [] → c'.rest = [] → P c c')
    (lost : ∀ c c', c.byte? = some x → isBlank x = true → P (c.advance 1) c' → P c c')
    (step : ∀ c c' y, Abreast a x b c c' → c.byte? = some y → c'.byte? = some y →
      Abreast a x b (c.advance 1) (c'.advance 1) →
      (∀ d d', Abreast a x b d d' → d.rest.length < c.rest.length → P d d') → P c c')
    (h : Abreast a x b c c') : P c c' := by
  -- by the length of what is still to come in the longer text
  generalize hlength : c.rest.length = m
  induction m using Nat.strongRecOn generalizing c c' with
  | ind m ih =>
    subst hlength
    have hon : ∀ d d', Abreast a x b d d' → d.rest.length < c.rest.length → P d d' :=
      fun d d' hd hless => ih _ hless hd rfl
    cases h with
    | before u v cut blank ends =>
      cases v with
      | nil =>
        have hnext := advance_across (v := []) cut blank ends 0
        exact lost _ _ rfl blank (hon _ _ hnext (Nat.lt_succ_self _))
      | cons y v =>
        have hnext : Abreast a x b (Cursor.advance _ 1) (Cursor.advance _ 1) :=
          advance_before (v := y :: v) cut blank ends (Nat.succ_le_succ (Nat.zero_le _))
        exact step _ _ y (.before u (y :: v) cut blank ends) rfl rfl hnext hon
    | behind u v cut blank margin =>
      cases v with
      | nil => exact done _ _ rfl rfl
      | cons y v =>
        exact step _ _ y (.behind u (y :: v) cut blank margin) rfl rfl (advance_behind cut blank margin 1) hon

/-- **So it holds of the cursors with which two scanners begin.** -/
theorem Abreast.walk_start {P : Cursor → Cursor → Prop} (blank : isBlank x = true) (margin : a = [] ∨ Ends b)
    (done : ∀ c c', c.rest = [] → c'.rest = [] → P c c')
    (lost : ∀ c c', c.byte? = some x → isBlank x = true → P (c.advance 1) c' → P c c')
    (step : ∀ c c' y, Abreast a x b c c' → c.byte? = some y → c'.byte? = some y →
      Abreast a x b (c.advance 1) (c'.advance 1) →
      (∀ d d', Abreast a x b d d' → d.rest.length < c.rest.length → P d d') → P c c') :
    P ⟨[], 0, a ++ x :: b⟩ ⟨[], 0, a ++ b⟩ := by
  rcases margin with rfl | ends
  · exact lost _ _ rfl blank (walk done lost step (.behind (a := []) [] b rfl blank (.inl rfl)))
  · exact walk done lost step (.before [] a rfl blank ends)

/-! ## Sweeps -/

theorem sweepFrom_wait (look : Cursor → Sighting α) (c : Cursor) (n : Nat) :
    sweepFrom look c.seen c.pos n c.rest =
      sweepFrom look (c.advance n).seen (c.advance n).pos 0 (c.advance n).rest := by
  induction n generalizing c with
  | zero => rfl
  | succ n ih =>
    cases hrest : c.rest with
    | nil =>
      unfold Cursor.advance
      rw [hrest]
      rfl
    | cons y r =>
      rw [sweepFrom, if_pos (Nat.succ_pos n), Nat.add_sub_cancel, Nat.add_comm n 1, Cursor.advance_add, ← ih]
      unfold Cursor.advance
      rw [hrest]
      rfl

/-- **What two looks have in common** that the scanners of the two texts take at the same byte. -/
inductive Alike (a : Text) (x : Char) (b : Text) (f : α → β) (c c' : Cursor) : Sighting α → Sighting α → Prop
  | nothing : Alike a x b f c c' .nothing .nothing
  | ended : Alike a x b f c c' .over .over
  | found {i i' : α} {n n' : Nat} (same : f i = f i') (goesOn : 0 < n ∧ 0 < n')
      (abreast : Abreast a x b (c.advance n) (c'.advance n')) : Alike a x b f c c' (.found i n) (.found i' n')

/-- The scanner finds nothing at a blank. -/
def OverlooksBlanks (look : Cursor → Sighting α) : Prop :=
  ∀ c y, c.byte? = some y → isBlank y = true → look c = .nothing

/-- **The scanners see the same at each byte of the two texts** that is not blank. -/
def SeesAlike (f : α → β) (look look' : Cursor → Sighting α) : Prop :=
  ∀ a x b c c' y, Abreast a x b c c' → c.byte? = some y → c'.byte? = some y → isBlank y = false →
    Alike a x b f c c' (look c) (look' c')

section Sweep

variable {f : α → β} {look look' : Cursor → Sighting α}

/-- The things found from a cursor on. -/
def sweepOn (look : Cursor → Sighting α) (c : Cursor) : List α := sweepFrom look c.seen c.pos 0 c.rest

/-- A scanner that finds nothing goes on at the next byte. -/
theorem sweepOn_nothing {y : Char} (hy : c.byte? = some y) (h : look c = .nothing) :
    sweepOn look c = sweepOn look (c.advance 1) := by
  obtain ⟨seen, pos, rest⟩ := c
  obtain ⟨r, rfl⟩ := List.head?_eq_some_iff.1 hy
  show sweepFrom look seen pos 0 (y :: r) = _
  rw [sweepFrom, if_neg (Nat.lt_irrefl 0), h]
  rfl

/-- A scanner that finds something goes on behind it. -/
theorem sweepOn_found {y : Char} {i : α} (hy : c.byte? = some y) (hn : 0 < n) (h : look c = .found i n) :
    sweepOn look c = i :: sweepOn look (c.advance n) := by
  obtain ⟨seen, pos, rest⟩ := c
  obtain ⟨r, rfl⟩ := List.head?_eq_some_iff.1 hy
  have hwait := sweepFrom_wait look ⟨seen, pos, y :: r⟩ n
  rw [sweepFrom, if_pos hn] at hwait
  show sweepFrom look seen pos 0 (y :: r) = _
  rw [sweepFrom, if_neg (Nat.lt_irrefl 0), h]
  exact congrArg (i :: ·) hwait

theorem sweepOn_over {y : Char} (hy : c.byte? = some y) (h : look c = .over) : sweepOn look c = [] := by
  obtain ⟨seen, pos, rest⟩ := c
  obtain ⟨r, rfl⟩ := List.head?_eq_some_iff.1 hy
  show sweepFrom look seen pos 0 (y :: r) = _
  rw [sweepFrom, if_neg (Nat.lt_irrefl 0), h]

/-- **A scanner finds the same in a text that has lost a blank.** -/
theorem sweep_loses (hblank : OverlooksBlanks look) (hblank' : OverlooksBlanks look')
    (hlook : SeesAlike f look look') (h : Loses n w w') : (sweep look w).map f = (sweep look' w').map f := by
  obtain @⟨a, x, b, -, blank, margin⟩ := h
  refine Abreast.walk_start (P := fun c c' => (sweepOn look c).map f = (sweepOn look' c').map f) blank margin ?_ ?_ ?_
  · intro c c' hrest hrest'
    rw [sweepOn, sweepOn, hrest, hrest']
    rfl
  · intro c c' hbyte blank hnext
    rw [sweepOn_nothing hbyte (hblank c x hbyte blank)]
    exact hnext
  · intro c c' y habreast hy hy' hnext hon
    cases shown : isBlank y with
    | true =>
      rw [sweepOn_nothing hy (hblank c y hy shown), sweepOn_nothing hy' (hblank' c' y hy' shown)]
      exact hon _ _ hnext (Cursor.length_rest_lt hy Nat.zero_lt_one)
    | false =>
      have halike := hlook a x b c c' y habreast hy hy' shown
      generalize hs : look c = s at halike
      generalize hs' : look' c' = s' at halike
      cases halike with
      | nothing =>
        rw [sweepOn_nothing hy hs, sweepOn_nothing hy' hs']
        exact hon _ _ hnext (Cursor.length_rest_lt hy Nat.zero_lt_one)
      | ended => rw [sweepOn_over hy hs, sweepOn_over hy' hs']
      | found same goesOn abreast =>
        rw [sweepOn_found hy goesOn.1 hs, sweepOn_found hy' goesOn.2 hs', List.map_cons, List.map_cons, same,
          hon _ _ abreast (Cursor.length_rest_lt hy goesOn.1)]

end Sweep

end Flatsheet
