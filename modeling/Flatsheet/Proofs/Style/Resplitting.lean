import Flatsheet.Proofs.Style.Arguments

/-!
# `Proofs.Style.Resplitting` — the arguments of a list, put into a list again

An argument list can be written down from its arguments with `, ` between them, and the comments that ask for manual
work do so. Splitting what they write gives the same arguments. What makes it so is that the scanner cuts in one state
only, the one it starts in: it comes out of every argument but the last one as it came in (`Resumed`), and blanks at the
ends of an argument do not matter for that (`Resumed.trim`). The last argument may leave a bracket or a quote open.

The main result is `splitTopLevel_stable`.
-/

namespace Flatsheet.Style

open Text

variable {separator c : Char} {s s' : SplitState} {blanks p t : Text} {ps : List Text}

/-! ## States -/

/-- The states that the scanner gets into: it is between two quotes that are no blanks, and a byte is protected there
only. -/
structure SplitState.Proper (s : SplitState) : Prop where
  quote : ∀ q, s.quote = some q → isBlank q = false
  escaped : s.escaped = true → s.quote ≠ none

theorem proper_fresh : SplitState.Proper .fresh := ⟨by simp [SplitState.fresh], by simp [SplitState.fresh]⟩

theorem SplitState.Proper.next (h : SplitState.Proper s) (c : Char) : SplitState.Proper (s.next c) := by
  obtain ⟨hquote, hescaped⟩ := h
  unfold SplitState.next
  split
  · exact ⟨hquote, by simp⟩
  · split
    · next q hq =>
      split
      · exact ⟨hquote, fun _ => by simp [hq]⟩
      · split
        · exact ⟨by simp, by simpa using ‹¬s.escaped = true›⟩
        · exact ⟨hquote, hescaped⟩
    · split
      · next hc =>
        refine ⟨?_, fun _ => by simp⟩
        intro q hq
        obtain rfl : c = q := Option.some.inj hq
        simp only [Bool.or_eq_true, decide_eq_true_eq] at hc
        rcases hc with rfl | rfl <;> decide
      · split
        · exact ⟨hquote, hescaped⟩
        · split <;> exact ⟨hquote, hescaped⟩

theorem proper_stateAfter? (h : SplitState.Proper s) (hp : stateAfter? separator s p = some s') :
    SplitState.Proper s' := by
  induction p generalizing s with
  | nil =>
    cases hp
    exact h
  | cons x p ih =>
    rw [stateAfter?] at hp
    split at hp
    · cases hp
    · exact ih (h.next x) hp

/-- **The scanner cuts in one state only.** -/
theorem eq_fresh_of_cutsAt (h : s.cutsAt separator c = true) : s = .fresh ∧ c = separator := by
  obtain ⟨depth, quote, escaped⟩ := s
  simp only [SplitState.cutsAt, Bool.and_eq_true, Bool.not_eq_true', Option.isNone_iff_eq_none, decide_eq_true_eq] at h
  obtain ⟨⟨⟨⟨⟨⟨⟨hescaped, hquote⟩, hdepth⟩, hc⟩, -⟩, -⟩, -⟩, -⟩ := h
  exact ⟨by rw [hescaped, hquote, hdepth]; rfl, hc⟩

/-! ## Blanks -/

theorem next_fresh_of_blank (blank : isBlank c = true) : SplitState.next .fresh c = .fresh := by
  simp only [isBlank, Bool.or_eq_true, decide_eq_true_eq] at blank
  rcases blank with ((((rfl | rfl) | rfl) | rfl) | rfl) | rfl <;> rfl

/-- No blank brings the scanner back to where it started. -/
theorem fresh_of_next_blank (h : SplitState.Proper s) (blank : isBlank c = true) (hnext : s.next c = .fresh) :
    s = .fresh := by
  obtain ⟨depth, quote, escaped⟩ := s
  obtain ⟨hquote, hescaped⟩ := h
  have hslash : c ≠ '\\' := by
    rintro rfl
    cases blank
  cases quote with
  | some q =>
    have hq : c ≠ q := by
      rintro rfl
      exact Bool.false_ne_true ((hquote c rfl).symm.trans blank)
    cases escaped <;> simp [SplitState.next, SplitState.fresh, hslash, hq] at hnext
  | none =>
    cases escaped with
    | true => exact absurd rfl (hescaped rfl)
    | false =>
      simp only [isBlank, Bool.or_eq_true, decide_eq_true_eq] at blank
      rcases blank with ((((rfl | rfl) | rfl) | rfl) | rfl) | rfl <;> exact hnext

theorem stateAfter?_blanks (h : ∀ c ∈ blanks, isBlank c = true) (hs : stateAfter? separator .fresh blanks = some s) :
    s = .fresh := by
  induction blanks with
  | nil =>
    cases hs
    rfl
  | cons x blanks ih =>
    rw [stateAfter?] at hs
    split at hs
    · cases hs
    · rw [next_fresh_of_blank (h x List.mem_cons_self)] at hs
      exact ih (fun c hc => h c (List.mem_cons_of_mem x hc)) hs

theorem fresh_of_stateAfter?_blanks (proper : SplitState.Proper s) (h : ∀ c ∈ blanks, isBlank c = true)
    (hs : stateAfter? separator s blanks = some .fresh) : s = .fresh := by
  induction blanks generalizing s with
  | nil => exact Option.some.inj hs
  | cons x blanks ih =>
    rw [stateAfter?] at hs
    split at hs
    · cases hs
    · have hnext := ih (proper.next x) (fun c hc => h c (List.mem_cons_of_mem x hc)) hs
      exact fresh_of_next_blank proper (h x List.mem_cons_self) hnext

/-- **Blanks at the ends of a piece do not matter**: the trimmed piece is uncut too, and it leaves the scanner where it
started if the piece does. -/
theorem stateAfter?_trim (h : stateAfter? separator .fresh p = some s) :
    ∃ s', stateAfter? separator .fresh (trim p) = some s' ∧ (s = .fresh → s' = .fresh) := by
  obtain ⟨front, hfront, hfrontBlank⟩ := eq_append_trimLeft p
  obtain ⟨back, hback, hbackBlank⟩ := eq_trimRight_append (trimLeft p)
  rw [hfront, stateAfter?_append, Option.bind_eq_some_iff] at h
  obtain ⟨s₁, hs₁, h⟩ := h
  rw [stateAfter?_blanks hfrontBlank hs₁, hback, stateAfter?_append, Option.bind_eq_some_iff] at h
  obtain ⟨s', hs', h⟩ := h
  refine ⟨s', hs', ?_⟩
  rintro rfl
  exact fresh_of_stateAfter?_blanks (proper_stateAfter? proper_fresh hs') hbackBlank h

/-! ## Parts -/

/-- Parts of a list, from a state of the scanner on: it cuts none of them, and it starts anew behind each but the last
one. -/
inductive Resumed (separator : Char) : SplitState → List Text → Prop
  | last {s s' : SplitState} {p : Text} : stateAfter? separator s p = some s' → Resumed separator s [p]
  | more {s : SplitState} {p : Text} {ps : List Text} : stateAfter? separator s p = some .fresh →
      Resumed separator .fresh ps → Resumed separator s (p :: ps)

theorem Resumed.ne_nil (h : Resumed separator s ps) : ps ≠ [] := by
  cases h <;> exact List.cons_ne_nil _ _

theorem Resumed.cons (hcut : ¬s.cutsAt separator c = true) (h : Resumed separator (s.next c) (p :: ps)) :
    Resumed separator s ((c :: p) :: ps) := by
  cases h with
  | last hp => exact .last (by rw [stateAfter?, if_neg hcut]; exact hp)
  | more hp hps => exact .more (by rw [stateAfter?, if_neg hcut]; exact hp) hps

/-- **What the scanner cuts a text into.** -/
theorem resumed_pieces (separator : Char) (s : SplitState) (t : Text) : Resumed separator s (pieces separator s t) := by
  induction t generalizing s with
  | nil => exact .last rfl
  | cons c r ih =>
    rw [pieces]
    split
    · next hcut =>
      obtain ⟨rfl, -⟩ := eq_fresh_of_cutsAt hcut
      exact .more rfl (ih .fresh)
    · next hcut =>
      have hrest := ih (s.next c)
      split
      · next hnil => exact absurd hnil (pieces_ne_nil _ _ _)
      · next p ps hpieces =>
        rw [hpieces] at hrest
        exact hrest.cons hcut

theorem Resumed.trim (h : Resumed separator .fresh ps) : Resumed separator .fresh (ps.map trim) := by
  induction ps with
  | nil => exact absurd rfl h.ne_nil
  | cons p ps ih =>
    cases h with
    | last hp =>
      obtain ⟨s', hs', -⟩ := stateAfter?_trim hp
      exact .last hs'
    | more hp hps =>
      obtain ⟨s', hs', hfresh⟩ := stateAfter?_trim hp
      rw [hfresh rfl] at hs'
      exact .more hs' (ih hps)

theorem Resumed.uncut (h : Resumed separator .fresh ps) (hp : p ∈ ps) :
    ∃ s', stateAfter? separator .fresh p = some s' := by
  induction ps with
  | nil => cases hp
  | cons q ps ih =>
    cases h with
    | last hq =>
      obtain rfl := List.mem_singleton.1 hp
      exact ⟨_, hq⟩
    | more hq hps =>
      rcases List.mem_cons.1 hp with rfl | hp
      · exact ⟨_, hq⟩
      · exact ih hps hp

theorem pieces_uncut (h : stateAfter? separator s p = some s') : pieces separator s p = [p] := by
  have hpieces : pieces separator s (p ++ []) = [p ++ []] := pieces_append h rfl
  rwa [List.append_nil] at hpieces

/-! ## Lists of parts -/

/-- A separator with a blank behind it, at the end of an uncut piece. -/
theorem map_trim_pieces_separated (h : stateAfter? ',' .fresh p = some .fresh) (r : Text) :
    (pieces ',' .fresh (p ++ ", ".toList ++ r)).map trim = trim p :: (pieces ',' .fresh r).map trim := by
  cases hr : pieces ',' .fresh r with
  | nil => exact absurd hr (pieces_ne_nil _ _ _)
  | cons q qs =>
    -- the blank becomes the first byte of the next piece
    have hblank : pieces ',' .fresh (' ' :: r) = (' ' :: q) :: qs := pieces_append (p := [' ']) rfl hr
    have hcomma : pieces ',' .fresh (',' :: ' ' :: r) = [] :: (' ' :: q) :: qs := by
      rw [pieces, if_pos (by decide), hblank]
    rw [List.append_assoc]
    show (pieces ',' .fresh (p ++ ',' :: ' ' :: r)).map trim = _
    rw [pieces_append h hcomma, List.append_nil]
    rfl

/-- **Parts with `, ` between them are cut into the parts.** -/
theorem map_trim_pieces_joinWith (h : Resumed ',' .fresh ps) :
    (pieces ',' .fresh (joinWith ", ".toList ps)).map trim = ps.map trim := by
  induction ps with
  | nil => exact absurd rfl h.ne_nil
  | cons p ps ih =>
    cases h with
    | last hp =>
      show (pieces ',' .fresh p).map trim = _
      rw [pieces_uncut hp]
    | more hp hps => rw [joinWith_cons _ _ hps.ne_nil, map_trim_pieces_separated hp, ih hps, List.map_cons]

/-- A list of arguments is not blank if the text that it is from is not. -/
theorem trim_joinWith_ne_nil (ht : trim t ≠ []) :
    trim (joinWith ", ".toList ((pieces ',' .fresh t).map trim)) ≠ [] := by
  have hjoin := joinWith_pieces ',' .fresh t
  generalize pieces ',' .fresh t = ps at hjoin
  subst hjoin
  match ps with
  | [] => exact absurd rfl ht
  | [p] =>
    show trim (trim p) ≠ []
    rw [trim_trim]
    exact ht
  | p :: q :: qs =>
    have hcomma : ',' ∈ joinWith ", ".toList ((p :: q :: qs).map trim) := by
      rw [List.map_cons, joinWith_cons _ _ (by simp)]
      simp
    exact trim_ne_nil hcomma (by decide)

/-- **Splitting an argument list is stable.** Each argument is trimmed and is its own only argument, unless it is empty;
and the arguments with `, ` between them are a list of the same arguments. Brackets and quotes may stay open, and
brackets may be closed too often. -/
theorem splitTopLevel_stable (t : Text) :
    (∀ p ∈ splitTopLevel ',' t, trim p = p ∧ splitTopLevel ',' p = if p = [] then [] else [p]) ∧
      splitTopLevel ',' (joinWith ", ".toList (splitTopLevel ',' t)) = splitTopLevel ',' t := by
  by_cases ht : trim t = []
  · have hnone : splitTopLevel ',' t = [] := by rw [splitTopLevel, ht]; rfl
    rw [hnone]
    exact ⟨by simp, rfl⟩
  have hparts : splitTopLevel ',' t = (pieces ',' .fresh t).map trim := by
    rw [splitTopLevel, if_neg (by simpa using ht)]
  have resumed : Resumed ',' .fresh ((pieces ',' .fresh t).map trim) := (resumed_pieces ',' .fresh t).trim
  have htrimmed : ∀ p ∈ (pieces ',' .fresh t).map trim, trim p = p := by
    intro p hp
    obtain ⟨q, -, rfl⟩ := List.mem_map.1 hp
    exact trim_trim q
  rw [hparts]
  refine ⟨fun p hp => ⟨htrimmed p hp, ?_⟩, ?_⟩
  · obtain ⟨s, hs⟩ := resumed.uncut hp
    rw [splitTopLevel, htrimmed p hp, pieces_uncut hs, List.map_singleton, htrimmed p hp]
    cases p <;> rfl
  · rw [splitTopLevel, if_neg (by simpa using trim_joinWith_ne_nil ht), map_trim_pieces_joinWith resumed,
      List.map_congr_left htrimmed, List.map_id']

/-- A list with a bracket that is closed too often, and with a quote that stays open. -/
def raggedList : Text := "a, rgba(0, 'x,\\'y') , ], \"b, c ".toList

theorem raggedList_resplit :
    splitTopLevel ',' raggedList = ["a", "rgba(0, 'x,\\'y')", "]", "\"b, c"].map String.toList ∧
      splitTopLevel ',' "\"b, c".toList = ["\"b, c".toList] ∧
      splitTopLevel ',' (joinWith ", ".toList (splitTopLevel ',' raggedList)) = splitTopLevel ',' raggedList := by
  obtain ⟨hparts, hjoined⟩ := splitTopLevel_stable raggedList
  have hsplit : splitTopLevel ',' raggedList = ["a", "rgba(0, 'x,\\'y')", "]", "\"b, c"].map String.toList := by decide
  have hlast : "\"b, c".toList ∈ splitTopLevel ',' raggedList := by rw [hsplit]; decide
  exact ⟨hsplit, (hparts _ hlast).2, hjoined⟩

end Flatsheet.Style
