import Flatsheet.Proofs.Style.DefinitionKept
import Mathlib.Algebra.Ring.Int.Defs

/-!
# `Proofs.Style.Tally` — what the tracker counts, and the lines that it passes by

The tracker of the lines is a handful of counters that depend on each other: how many braces are open, at which depth
the body of a definition was opened, how many parentheses of a map are open, and whether the brace of a body is still
awaited. As signed numbers (`Tally`) they take what a line counts as it comes, below zero if need be, and only the
number of braces is put right at the end of the line. Each line keeps them sound (`Tally.Sound.advance`): no count is
negative where it is looked at, and a body or a map that is over has been left. So the tracker, whose counts are natural
numbers and exist only where they mean something, never says anything else (`Tally.tracker_advance`).

A definition that is written over several lines (`DefinitionLines`) is followed from its first line to its last one.
Behind the first line the tracker is inside, and how many braces are open is what has been counted
(`DefinitionLines.inside`), so all of these lines are passed by, and behind the last one the tracker is where it was
(`DefinitionLines.follow_lines`).

The main result is `tracking_sound`.
-/

namespace Flatsheet.Style

open Text Check Mask

variable {T : Tracker} {l v r : Text} {ls : List Text} {c : Char} {parens depth k n : Nat} {interpolated : Bool}

/-! ## Counters -/

/-- What a line stands in. -/
inductive Region
  | stylesheet
  | mixinBody
  | functionBody
  | mapLiteral
deriving DecidableEq, Repr

/-- The body of a definition. -/
def Region.isBody : Region → Bool
  | .mixinBody | .functionBody => true
  | .stylesheet | .mapLiteral => false

/-- **The counters of the tracker**, as signed numbers. A counter keeps its value where it means nothing. -/
structure Tally where
  region : Region := .stylesheet
  /-- Open braces. -/
  braces : Int := 0
  /-- Braces that were open where the definition began. -/
  entry : Int := 0
  /-- Open parentheses of the map literal. -/
  parens : Int := 0
  /-- The brace that opens the body of the definition is still to come. -/
  awaited : Bool := false
deriving DecidableEq, Repr

namespace Tally

/-- The counters after a line of the code mask. -/
def advance (y : Tally) (line : Text) : Tally :=
  let code := trim line
  let opens := code.count '\x7b'
  let braces : Int := y.braces + opens - code.count '\x7d'
  let balance : Int := code.count '(' - code.count ')'
  let next : Tally := match y.region with
    | .stylesheet =>
      let isMixin := startsWith code "@mixin".toList
      if (isMixin || startsWith code "@function".toList) && (directiveEnd? code 0).isNone then
        let body := if isMixin then .mixinBody else .functionBody
        if y.braces < braces then { y with region := body, entry := y.braces }
        else if opens = 0 then { y with region := body, entry := y.braces, awaited := true }
        else y
      else if opensMapLiteral code && 0 < balance then { y with region := .mapLiteral, parens := balance }
      else y
    | .mixinBody | .functionBody =>
      if y.awaited && opens = 0 then y
      else if braces ≤ y.entry then { y with region := .stylesheet, awaited := false }
      else { y with awaited := false }
    | .mapLiteral =>
      let parens := y.parens + balance
      if parens ≤ 0 then { y with region := .stylesheet, parens := 0 } else { y with parens }
  { next with braces := max 0 braces }

/-- The counters after lines. -/
def follow (y : Tally) (ls : List Text) : Tally := ls.foldl advance y

/-- **The counters are sound.** -/
structure Sound (y : Tally) : Prop where
  /-- No more braces have been closed than opened. -/
  braces : 0 ≤ y.braces
  /-- In a body that has begun more braces are open than where the definition began. -/
  body : y.region.isBody = true → y.awaited = true ∨ y.entry < y.braces
  /-- In a map literal a parenthesis is open. -/
  parens : y.region = .mapLiteral → 0 < y.parens
  /-- A body is awaited by a definition only. -/
  awaited : y.awaited = true → y.region.isBody = true
  /-- A definition began at some depth. -/
  entry : y.region.isBody = true → 0 ≤ y.entry

/-- What the counters say of a line, where they mean something. -/
def tracker (y : Tally) : Tracker where
  scope := match y.region with
    | .stylesheet => .stylesheet
    | .mixinBody => .definition false y.entry.toNat y.awaited
    | .functionBody => .definition true y.entry.toNat y.awaited
    | .mapLiteral => .mapLiteral y.parens.toNat
  depth := y.braces.toNat

variable {y : Tally}

theorem sound_start : ({} : Tally).Sound := ⟨Int.le_refl 0, nofun, nofun, nofun, nofun⟩

/-- Outside definitions and map literals nothing is asked but that no body is awaited. -/
theorem sound_stylesheet (b e p : Int) : Sound ⟨.stylesheet, max 0 b, e, p, false⟩ :=
  ⟨Int.le_max_left 0 b, nofun, nofun, nofun, nofun⟩

theorem sound_body {r : Region} {b e : Int} {a : Bool} (hr : r.isBody = true) (he : 0 ≤ e)
    (h : a = true ∨ e < b) (p : Int) : Sound ⟨r, max 0 b, e, p, a⟩ := by
  refine ⟨Int.le_max_left 0 b, fun _ => h.imp_right ?_, ?_, fun _ => hr, fun _ => he⟩
  · intro hlt
    exact Int.lt_of_lt_of_le hlt (Int.le_max_right 0 b)
  · rintro rfl
    cases hr

theorem sound_map {p : Int} (hp : 0 < p) (b e : Int) : Sound ⟨.mapLiteral, max 0 b, e, p, false⟩ :=
  ⟨Int.le_max_left 0 b, nofun, fun _ => hp, nofun, nofun⟩

/-- **Each line keeps the counters sound.** -/
theorem Sound.advance (h : y.Sound) (l : Text) : (y.advance l).Sound := by
  obtain ⟨region, braces, entry, parens, awaited⟩ := y
  obtain ⟨hbraces, -, hparens, hawaited, hentry⟩ := h
  dsimp only at hbraces hparens hawaited hentry
  -- outside of bodies nothing is awaited
  have hidle : region.isBody = false → awaited = false := by
    intro h
    simpa [h] using hawaited
  unfold Tally.advance
  dsimp only
  cases region with
  | stylesheet =>
    obtain rfl := hidle rfl
    have hbody : ∀ b : Bool, (if b then Region.mixinBody else .functionBody).isBody = true := by decide
    dsimp only
    split
    · split
      · next hdeeper => exact sound_body (hbody _) hbraces (.inr hdeeper) parens
      · split
        · exact sound_body (hbody _) hbraces (.inl rfl) parens
        · exact sound_stylesheet _ entry parens
    · split
      · next hmap =>
        simp only [Bool.and_eq_true, decide_eq_true_eq] at hmap
        exact sound_map hmap.2 _ entry
      · exact sound_stylesheet _ entry parens
  | mixinBody | functionBody =>
    dsimp only
    split
    · next hwaiting =>
      simp only [Bool.and_eq_true] at hwaiting
      exact sound_body rfl (hentry rfl) (.inl hwaiting.1) parens
    · split
      · exact sound_stylesheet _ entry parens
      · next hdeeper => exact sound_body rfl (hentry rfl) (.inr (Int.lt_of_not_ge hdeeper)) parens
  | mapLiteral =>
    obtain rfl := hidle rfl
    dsimp only
    split
    · exact sound_stylesheet _ entry 0
    · next hopen => exact sound_map (Int.lt_of_not_ge hopen) _ entry

@[simp] theorem tracker_stylesheet (b e p : Int) (a : Bool) :
    tracker ⟨.stylesheet, b, e, p, a⟩ = ⟨.stylesheet, b.toNat⟩ := rfl

@[simp] theorem tracker_body (isMixin : Bool) (b e p : Int) (a : Bool) :
    tracker ⟨if isMixin then .mixinBody else .functionBody, b, e, p, a⟩ =
      ⟨.definition (!isMixin) e.toNat a, b.toNat⟩ := by
  cases isMixin <;> rfl

@[simp] theorem tracker_map (b e p : Int) (a : Bool) :
    tracker ⟨.mapLiteral, b, e, p, a⟩ = ⟨.mapLiteral p.toNat, b.toNat⟩ := rfl

/-- **Natural numbers count the same** where the counters are sound. -/
theorem tracker_advance (h : y.Sound) (l : Text) : (y.advance l).tracker = y.tracker.advance l := by
  obtain ⟨region, braces, entry, parens, awaited⟩ := y
  obtain ⟨hbraces, -, hparens, hawaited, hentry⟩ := h
  dsimp only at hbraces hparens hawaited hentry
  obtain ⟨d, rfl⟩ := Int.eq_ofNat_of_zero_le hbraces
  unfold Tally.advance Tracker.advance
  dsimp only
  generalize (trim l).count '\x7b' = opens
  generalize (trim l).count '\x7d' = closes
  generalize (trim l).count '(' = opened
  generalize (trim l).count ')' = closed
  -- subtraction of natural numbers stops at zero where the counter is set to zero
  have hdepth : (max 0 ((d : Int) + opens - closes)).toNat = d + opens - closes := by omega
  cases region with
  | stylesheet =>
    have hidle : awaited = false := by simpa [Region.isBody] using hawaited
    have hdeeper : (d : Int) < d + opens - closes ↔ d < d + opens - closes := by omega
    have hopen : (0 : Int) < opened - closed ↔ closed < opened := by omega
    have hcount : ((opened : Int) - closed).toNat = opened - closed := by omega
    simp only [hidle, hdeeper, hopen, tracker_stylesheet, Int.toNat_natCast]
    by_cases hstart : ((startsWith (trim l) "@mixin".toList || startsWith (trim l) "@function".toList) &&
        (directiveEnd? (trim l) 0).isNone) = true
    · rw [if_pos hstart, if_pos hstart]
      by_cases hdeep : d < d + opens - closes
      · rw [if_pos hdeep, if_pos hdeep, tracker_body, hdepth, Int.toNat_natCast]
      · rw [if_neg hdeep, if_neg hdeep]
        by_cases hbare : opens = 0
        · rw [if_pos hbare, if_pos hbare, tracker_body, hdepth, Int.toNat_natCast]
        · rw [if_neg hbare, if_neg hbare, tracker_stylesheet, hdepth]
    · rw [if_neg hstart, if_neg hstart]
      by_cases hmap : (opensMapLiteral (trim l) && decide (closed < opened)) = true
      · rw [if_pos hmap, if_pos hmap, tracker_map, hdepth, hcount]
      · rw [if_neg hmap, if_neg hmap, tracker_stylesheet, hdepth]
  | mixinBody | functionBody =>
    obtain ⟨e, rfl⟩ := Int.eq_ofNat_of_zero_le (hentry rfl)
    have hover : (d : Int) + opens - closes ≤ e ↔ d + opens - closes ≤ e := by omega
    simp only [tracker, Int.toNat_natCast, hover]
    by_cases hwaiting : (awaited && decide (opens = 0)) = true
    · rw [if_pos hwaiting, if_pos hwaiting]
      simp only [Bool.and_eq_true] at hwaiting
      simp only [hdepth, Int.toNat_natCast, hwaiting.1]
    · rw [if_neg hwaiting, if_neg hwaiting]
      by_cases hleft : d + opens - closes ≤ e
      · simp only [hleft, if_true, hdepth]
      · simp only [hleft, if_false, hdepth, Int.toNat_natCast]
  | mapLiteral =>
    obtain ⟨p, rfl⟩ := Int.eq_ofNat_of_zero_le (Int.le_of_lt (hparens rfl))
    have hclosed : (p : Int) + (opened - closed) ≤ 0 ↔ p + opened - closed = 0 := by omega
    have hcount : ((p : Int) + (opened - closed)).toNat = p + opened - closed := by omega
    simp only [tracker_map, Int.toNat_natCast, hclosed]
    by_cases hleft : p + opened - closed = 0
    · simp only [hleft, if_true, tracker_stylesheet, hdepth]
    · simp only [hleft, if_false, tracker_map, hcount, hdepth]

/-- **The counters are sound after any lines**, and the tracker is what they say. -/
theorem sound_follow (ls : List Text) :
    (({} : Tally).follow ls).Sound ∧ (({} : Tally).follow ls).tracker = ({} : Tracker).follow ls := by
  induction ls using List.reverseRecOn with
  | nil => exact ⟨sound_start, rfl⟩
  | append_singleton ls l ih =>
    rw [Tally.follow, List.foldl_append, Tracker.follow, List.foldl_append]
    exact ⟨ih.1.advance l, (tracker_advance ih.1 l).trans (congrArg (·.advance l) ih.2)⟩

end Tally

/-- **What the tracker says is sound**: in a body that has begun more braces are open than where the definition began,
and in a map literal a parenthesis is open. -/
def Tracker.Sound (T : Tracker) : Prop :=
  match T.scope with
  | .stylesheet => True
  | .definition _ entry awaited => awaited = true ∨ entry < T.depth
  | .mapLiteral parens => 0 < parens

theorem Tally.Sound.tracker {y : Tally} (h : y.Sound) : y.tracker.Sound := by
  obtain ⟨region, braces, entry, parens, awaited⟩ := y
  obtain ⟨hbraces, hbody, hparens, -, hentry⟩ := h
  dsimp only at hbraces hbody hparens hentry
  have hlt : entry < braces → 0 ≤ entry → entry.toNat < braces.toNat := by omega
  cases region with
  | stylesheet => trivial
  | mixinBody | functionBody => exact (hbody rfl).imp_right fun h => hlt h (hentry rfl)
  | mapLiteral => exact Int.pos_iff_toNat_pos.1 (hparens rfl)

/-! ## The lines of a definition -/

/-- The braces that lines open, less those that they close. -/
def braceSum (ls : List Text) : Int := (ls.map fun l => (l.count '\x7b' : Int) - l.count '\x7d').sum

theorem braceSum_concat (ls : List Text) (l : Text) :
    braceSum (ls ++ [l]) = braceSum ls + (l.count '\x7b' - l.count '\x7d') := by
  rw [braceSum, List.map_append, List.sum_append]
  simp [braceSum]

/-- **A definition that is written over several lines**, of which the line `k` is the first with an opening brace: no
brace is closed before it, and from it on more have been opened than closed, up to the last line, where they are
even. -/
structure DefinitionLines (k : Nat) (ls : List Text) : Prop where
  several : 2 ≤ ls.length
  begins : ∀ l ∈ ls.head?,
    (startsWith (trim l) "@mixin".toList = true ∨ startsWith (trim l) "@function".toList = true) ∧
      directiveEnd? (trim l) 0 = none
  bare : ∀ l ∈ ls.take k, '\x7b' ∉ l ∧ '\x7d' ∉ l
  opening : ∃ l, ls[k]? = some l ∧ '\x7b' ∈ l
  opened : ∀ n, k < n → n < ls.length → 0 < braceSum (ls.take n)
  even : braceSum ls = 0

/-- What the tracker does with a line of a definition. -/
theorem advance_definition {isFunction awaited : Bool} {entry : Nat}
    (h : T.scope = .definition isFunction entry awaited) (l : Text) : T.advance l =
      if awaited && l.count '\x7b' = 0 then
        ⟨.definition isFunction entry true, T.depth + l.count '\x7b' - l.count '\x7d'⟩
      else if T.depth + l.count '\x7b' - l.count '\x7d' ≤ entry then
        ⟨.stylesheet, T.depth + l.count '\x7b' - l.count '\x7d'⟩
      else ⟨.definition isFunction entry false, T.depth + l.count '\x7b' - l.count '\x7d'⟩ := by
  have hopens : (trim l).count '\x7b' = l.count '\x7b' := count_trim rfl l
  have hcloses : (trim l).count '\x7d' = l.count '\x7d' := count_trim rfl l
  unfold Tracker.advance
  simp only [h, hopens, hcloses]

/-- What it does with the first one. -/
theorem advance_begins (h : T.scope = .stylesheet)
    (hmark : startsWith (trim l) "@mixin".toList = true ∨ startsWith (trim l) "@function".toList = true)
    (hends : directiveEnd? (trim l) 0 = none) : ∃ isFunction, T.advance l =
      if T.depth < T.depth + l.count '\x7b' - l.count '\x7d' then
        ⟨.definition isFunction T.depth false, T.depth + l.count '\x7b' - l.count '\x7d'⟩
      else if l.count '\x7b' = 0 then
        ⟨.definition isFunction T.depth true, T.depth + l.count '\x7b' - l.count '\x7d'⟩
      else ⟨.stylesheet, T.depth + l.count '\x7b' - l.count '\x7d'⟩ := by
  have hopens : (trim l).count '\x7b' = l.count '\x7b' := count_trim rfl l
  have hcloses : (trim l).count '\x7d' = l.count '\x7d' := count_trim rfl l
  have hstart : ((startsWith (trim l) "@mixin".toList || startsWith (trim l) "@function".toList) &&
      (directiveEnd? (trim l) 0).isNone) = true := by
    rw [hends, Bool.and_eq_true, Bool.or_eq_true]
    exact ⟨hmark, rfl⟩
  refine ⟨!startsWith (trim l) "@mixin".toList, ?_⟩
  unfold Tracker.advance
  simp only [h, hopens, hcloses]
  rw [if_pos hstart]

/-! ## Lines that are passed by -/

/-- No statement ends at a blank. -/
theorem directiveStep_blank (h : isBlank c = true) (parens depth : Nat) (interpolated marked : Bool) :
    ∃ next, directiveStep parens depth interpolated c marked = .inr next := by
  have hne : ∀ x, isBlank x = false → c ≠ x := by
    rintro x hx rfl
    rw [h] at hx
    cases hx
  have hsemicolon : c ≠ ';' := hne ';' rfl
  have hopen : c ≠ '\x7b' := hne '\x7b' rfl
  have hclose : c ≠ '\x7d' := hne '\x7d' rfl
  have hgroup : c ≠ '(' ∧ c ≠ ')' ∧ c ≠ '#' := ⟨hne '(' rfl, hne ')' rfl, hne '#' rfl⟩
  unfold directiveStep
  simp only [hsemicolon, hopen, hclose, hgroup, decide_false, Bool.false_and, Bool.false_eq_true, if_false]
  split
  · exact ⟨_, rfl⟩
  · split <;> exact ⟨_, rfl⟩

theorem directiveLength?_of_blanks (hr : ∀ x ∈ r, isBlank x = true) :
    directiveLength? parens depth interpolated r = none := by
  induction r generalizing parens depth interpolated with
  | nil => rfl
  | cons c r ih =>
    obtain ⟨next, hnext⟩ :=
      directiveStep_blank (hr c List.mem_cons_self) parens depth interpolated (r.head? = some '\x7b')
    rw [directiveLength?_cons, hnext]
    exact Option.map_eq_none_iff.2 (ih fun x hx => hr x (List.mem_cons_of_mem c hx))

/-- **Blanks behind a statement that runs on** do not end it. -/
theorem directiveLength?_append_blanks (h : directiveLength? parens depth interpolated v = none)
    (hr : ∀ x ∈ r, isBlank x = true) : directiveLength? parens depth interpolated (v ++ r) = none := by
  induction v generalizing parens depth interpolated with
  | nil => exact directiveLength?_of_blanks hr
  | cons c v ih =>
    rw [directiveLength?_cons] at h
    rw [List.cons_append, directiveLength?_cons]
    rcases directiveStep_append parens depth interpolated c v r with hsame | ⟨rfl, hon⟩
    · rw [hsame]
      cases hnext : directiveStep parens depth interpolated c (v.head? = some '\x7b') with
      | inl reached =>
        rw [hnext] at h
        cases h
      | inr next =>
        rw [hnext] at h
        exact Option.map_eq_none_iff.2 (ih (Option.map_eq_none_iff.1 h))
    · obtain ⟨next, hnext⟩ := hon (([] ++ r).head? = some '\x7b')
      rw [hnext]
      exact Option.map_eq_none_iff.2 (directiveLength?_of_blanks hr)

/-- A line that a definition runs past is passed by. -/
theorem skips_begins (h : T.scope = .stylesheet)
    (hmark : startsWith (trim l) "@mixin".toList = true ∨ startsWith (trim l) "@function".toList = true)
    (hends : directiveEnd? (trim l) 0 = none) : T.skips l = true := by
  have hruns : directiveLength? 0 0 false (trim l) = none := by
    rw [directiveEnd?, List.drop_zero] at hends
    exact Option.map_eq_none_iff.1 hends
  obtain ⟨w, hw⟩ : ∃ w, trim l = '@' :: w := by
    rcases hmark with h | h <;>
      (obtain ⟨w, hw⟩ := List.isPrefixOf_iff_prefix.1 h; exact ⟨_, hw.symm⟩)
  obtain ⟨blanks, hcut, hblanks⟩ := eq_trimRight_append (trimLeft l)
  have htrimmed : trimLeft l = '@' :: (w ++ blanks) := by
    rw [hcut, ← trim, hw, List.cons_append]
  have hstatement : directiveLength? 0 0 false ('@' :: (w ++ blanks)) = none := by
    rw [← List.cons_append, ← hw]
    exact directiveLength?_append_blanks hruns hblanks
  have hfrom : T.convertFrom? l = none := by
    have hend : statementsEnd? 0 l = none := by
      rw [statementsEnd?_of_cons htrimmed, if_neg (by decide), hstatement]
      rfl
    rw [Tracker.convertFrom?, if_neg (not_not.2 h), hw, List.isEmpty_cons, if_neg Bool.false_ne_true, hend]
    exact ite_self none
  rw [Tracker.skips, hfrom]

/-- Inside a definition every line is passed by. -/
theorem skips_definition {isFunction awaited : Bool} {entry : Nat}
    (h : T.scope = .definition isFunction entry awaited) (l : Text) : T.skips l = true := by
  have hfrom : T.convertFrom? l = none := by
    rw [Tracker.convertFrom?, if_pos]
    rw [h]
    intro hscope
    cases hscope
  rw [Tracker.skips, hfrom]

/-- **The tracker behind so many lines of a definition**: inside it, with the braces that have been counted; its body is
awaited up to the line that opens it. -/
structure Inside (T : Tracker) (k : Nat) (ls : List Text) (n : Nat) : Prop where
  scope : ∃ isFunction, (T.follow (ls.take n)).scope = .definition isFunction T.depth (n ≤ k)
  depth : ((T.follow (ls.take n)).depth : Int) = T.depth + braceSum (ls.take n)

theorem follow_succ (T : Tracker) (h : ls[n]? = some l) :
    T.follow (ls.take (n + 1)) = (T.follow (ls.take n)).advance l ∧
      braceSum (ls.take (n + 1)) = braceSum (ls.take n) + (l.count '\x7b' - l.count '\x7d') := by
  have htake : ls.take (n + 1) = ls.take n ++ [l] := by
    rw [List.take_add_one, h]
    rfl
  rw [htake, braceSum_concat, Tracker.follow, List.foldl_append]
  exact ⟨rfl, rfl⟩

namespace DefinitionLines

/-- A line before the first opening brace has no braces. -/
theorem count_bare (hls : DefinitionLines k ls) (h : ls[n]? = some l) (hn : n < k) :
    l.count '\x7b' = 0 ∧ l.count '\x7d' = 0 := by
  have hmem : l ∈ ls.take k := by
    rw [← List.getElem?_take_of_lt hn] at h
    exact List.mem_of_getElem? h
  obtain ⟨hopen, hclose⟩ := hls.bare l hmem
  exact ⟨List.count_eq_zero.2 hopen, List.count_eq_zero.2 hclose⟩

/-- The line with the first opening brace. -/
theorem count_opening (hls : DefinitionLines k ls) (h : ls[k]? = some l) : 0 < l.count '\x7b' := by
  obtain ⟨l', hl', hmem⟩ := hls.opening
  rw [h] at hl'
  cases hl'
  exact List.count_pos_iff.2 hmem

/-- From that line on no body is awaited. -/
theorem not_waiting (hls : DefinitionLines k ls) (h : ls[n]? = some l) (hn : k ≤ n) :
    ¬ (decide (n ≤ k) && decide (l.count '\x7b' = 0)) = true := by
  rw [Bool.and_eq_true, decide_eq_true_eq, decide_eq_true_eq]
  rintro ⟨hle, hnone⟩
  obtain rfl : n = k := Nat.le_antisymm hle hn
  exact absurd hnone (Nat.ne_of_gt (hls.count_opening h))

/-- Behind its first line the tracker is inside the definition. -/
theorem inside_one (hls : DefinitionLines k ls) (h : T.scope = .stylesheet) : Inside T k ls 1 := by
  obtain ⟨l, hl⟩ : ∃ l, ls[0]? = some l := by
    have hlength := hls.several
    exact ⟨ls[0], List.getElem?_eq_getElem (by omega)⟩
  obtain ⟨hmark, hends⟩ := hls.begins l (by rw [List.head?_eq_getElem?, hl]; rfl)
  obtain ⟨isFunction, hadvance⟩ := advance_begins h hmark hends
  obtain ⟨hfollow, hsum⟩ := follow_succ T hl
  have hzero : braceSum (ls.take 0) = 0 := rfl
  have hstart : T.follow (ls.take 0) = T := rfl
  rw [Nat.zero_add, hzero] at hsum
  rw [Nat.zero_add, hstart, hadvance] at hfollow
  by_cases hk : k = 0
  · subst hk
    have hopened := hls.opened 1 Nat.zero_lt_one hls.several
    rw [if_pos (by omega)] at hfollow
    refine ⟨⟨isFunction, ?_⟩, ?_⟩
    · rw [hfollow]
      rfl
    · rw [hfollow]
      dsimp only
      omega
  · obtain ⟨hopens, hcloses⟩ := hls.count_bare hl (Nat.pos_of_ne_zero hk)
    rw [if_neg (by omega), if_pos hopens] at hfollow
    refine ⟨⟨isFunction, ?_⟩, ?_⟩
    · rw [hfollow, decide_eq_true (Nat.one_le_iff_ne_zero.2 hk)]
    · rw [hfollow]
      dsimp only
      omega

/-- **And behind each further line but the last one.** -/
theorem inside_next (hls : DefinitionLines k ls) (h : Inside T k ls n) (hn : n + 1 < ls.length) :
    Inside T k ls (n + 1) := by
  obtain ⟨⟨isFunction, hscope⟩, hdepth⟩ := h
  have hl : ls[n]? = some ls[n] := List.getElem?_eq_getElem (by omega)
  obtain ⟨hfollow, hsum⟩ := follow_succ T hl
  rw [advance_definition hscope] at hfollow
  by_cases hk : n < k
  · obtain ⟨hopens, hcloses⟩ := hls.count_bare hl hk
    have hwaiting : (decide (n ≤ k) && decide (ls[n].count '\x7b' = 0)) = true := by
      rw [decide_eq_true (Nat.le_of_lt hk), decide_eq_true hopens]
      rfl
    rw [if_pos hwaiting] at hfollow
    refine ⟨⟨isFunction, ?_⟩, ?_⟩
    · rw [hfollow, decide_eq_true (Nat.succ_le_of_lt hk)]
    · rw [hfollow]
      dsimp only
      omega
  · have hopened := hls.opened (n + 1) (by omega) hn
    rw [if_neg (hls.not_waiting hl (Nat.le_of_not_lt hk)), if_neg (by omega)] at hfollow
    refine ⟨⟨isFunction, ?_⟩, ?_⟩
    · rw [hfollow, decide_eq_false (by omega)]
    · rw [hfollow]
      dsimp only
      omega

theorem inside (hls : DefinitionLines k ls) (h : T.scope = .stylesheet) (hpos : 0 < n) (hn : n < ls.length) :
    Inside T k ls n := by
  induction n, hpos using Nat.le_induction with
  | base => exact hls.inside_one h
  | succ n hpos ih => exact hls.inside_next (ih (by omega)) hn

/-- **Behind the last line** the tracker is where it was. -/
theorem follow_lines (hls : DefinitionLines k ls) (h : T.scope = .stylesheet) :
    T.follow ls = ⟨.stylesheet, T.depth⟩ := by
  have hseveral := hls.several
  obtain ⟨n, hlength⟩ : ∃ n, ls.length = n + 1 := ⟨ls.length - 1, by omega⟩
  obtain ⟨⟨isFunction, hscope⟩, hdepth⟩ := hls.inside h (n := n) (by omega) (by omega)
  have hl : ls[n]? = some ls[n] := List.getElem?_eq_getElem (by omega)
  have hk : k ≤ n := by
    obtain ⟨l, hl, -⟩ := hls.opening
    have hlt := (List.getElem?_eq_some_iff.1 hl).1
    omega
  have hwhole : ls.take (n + 1) = ls := List.take_of_length_le (by omega)
  have heven := hls.even
  obtain ⟨hfollow, hsum⟩ := follow_succ T hl
  rw [advance_definition hscope, if_neg (hls.not_waiting hl hk)] at hfollow
  rw [hwhole] at hfollow hsum
  have hback : (T.follow (ls.take n)).depth + ls[n].count '\x7b' - ls[n].count '\x7d' = T.depth := by omega
  rw [hfollow, hback, if_pos (Nat.le_refl _)]

/-- **All these lines are passed by.** -/
theorem skips (hls : DefinitionLines k ls) (h : T.scope = .stylesheet) (hl : ls[n]? = some l) :
    (T.follow (ls.take n)).skips l = true := by
  cases n with
  | zero =>
    obtain ⟨hmark, hends⟩ := hls.begins l (by rw [List.head?_eq_getElem?, hl]; rfl)
    exact skips_begins h hmark hends
  | succ n =>
    obtain ⟨⟨isFunction, hscope⟩, -⟩ := hls.inside h (Nat.succ_pos n) (List.getElem?_eq_some_iff.1 hl).1
    exact skips_definition hscope l

end DefinitionLines

/-- **The tracker is sound.** After any lines its counters, taken as signed numbers, are sound and say what the tracker
says. And from any place outside definitions and map literals, each line of a definition that is written over several
lines is passed by, and the tracker is back where it was behind them. -/
theorem tracking_sound :
    (∀ ls : List Text, (({} : Tally).follow ls).Sound ∧ (({} : Tally).follow ls).tracker = ({} : Tracker).follow ls ∧
      (({} : Tracker).follow ls).Sound) ∧
    ∀ (before ls : List Text) (k : Nat), (({} : Tracker).follow before).scope = .stylesheet → DefinitionLines k ls →
      (∀ n l, ls[n]? = some l → (({} : Tracker).follow (before ++ ls.take n)).skips l = true) ∧
      ({} : Tracker).follow (before ++ ls) = ⟨.stylesheet, (({} : Tracker).follow before).depth⟩ := by
  constructor
  · intro ls
    obtain ⟨hsound, hsame⟩ := Tally.sound_follow ls
    exact ⟨hsound, hsame, hsame ▸ hsound.tracker⟩
  · intro before ls k hscope hls
    have happend : ∀ more, ({} : Tracker).follow (before ++ more) = (({} : Tracker).follow before).follow more :=
      fun more => List.foldl_append
    refine ⟨fun n l hl => ?_, ?_⟩
    · rw [happend]
      exact hls.skips hscope hl
    · rw [happend]
      exact hls.follow_lines hscope

/-- A mixin in a rule, whose body is opened on the second line. -/
def shadeLines : List Text :=
  ["  @mixin shade($c)".toList, "  \x7b color: $c;".toList, "    .d \x7b e: f; \x7d".toList, "  \x7d ".toList]

theorem shadeLines_definition : DefinitionLines 1 shadeLines where
  several := by decide
  begins := by decide
  bare := by decide
  opening := ⟨_, rfl, by decide⟩
  opened := by
    have hsums : ∀ n ∈ [2, 3], 0 < braceSum (shadeLines.take n) := by decide
    intro n hk hn
    have hlength : shadeLines.length = 4 := rfl
    exact hsums n (by simp; omega)
  even := by decide

/-- It is passed by, and one brace is open behind it. -/
theorem shadeLines_skipped :
    (({} : Tracker).follow [".b \x7b".toList]).scope = .stylesheet ∧ DefinitionLines 1 shadeLines ∧
      (∀ n l, shadeLines[n]? = some l →
        (({} : Tracker).follow ([".b \x7b".toList] ++ shadeLines.take n)).skips l = true) ∧
      ({} : Tracker).follow ([".b \x7b".toList] ++ shadeLines) = ⟨.stylesheet, 1⟩ :=
  ⟨by decide, shadeLines_definition,
    tracking_sound.2 [".b \x7b".toList] shadeLines 1 (by decide) shadeLines_definition⟩

end Flatsheet.Style
