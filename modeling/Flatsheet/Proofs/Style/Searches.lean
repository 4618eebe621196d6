import Flatsheet.Proofs.Style.Sweep
import Flatsheet.Proofs.Text.Loss
import Mathlib.Data.List.Nodup
import Mathlib.Data.List.Perm.Basic
import Mathlib.Data.List.ReduceOption

/-!
# `Proofs.Style.Searches` — one sweep for all colour functions, or a search for each of them

The outermost calls of colour functions are found in one sweep, which stops at each place where the name of one of them
stands. They can be found in another way: the text is searched for one name after the other (`HelperCall.search`), each
time from its beginning; the calls are put in order, and those inside of another one are left out (`outermost`). Both
give the same calls (`HelperCall.find_eq_outermost`).

Between them stands the list of all places of a text (`places`). A search passes by places where no word can begin, and
a sweep those inside of what it has found.
-/

namespace Flatsheet

open Text Style Check Mask

variable {α β : Type} {code t w a b r name seen : Text} {c : Cursor} {look : Cursor → Sighting α} {span : α → Span}
  {pos wait stop : Nat} {before : Option Char}

/-! ## Places -/

/-- The places of a text from one of them on. -/
def placesFrom (seen : Text) (pos : Nat) : Text → List Cursor
  | [] => []
  | c :: r => ⟨seen, pos, c :: r⟩ :: placesFrom (c :: seen) (pos + 1) r

/-- All places of a text at which a byte stands. -/
def places (t : Text) : List Cursor := placesFrom [] 0 t

theorem mem_placesFrom (hpos : pos ≤ code.length) (h : c ∈ placesFrom seen pos (code.drop pos)) :
    c.At code ∧ pos ≤ c.pos := by
  generalize hw : code.drop pos = w at h
  induction w generalizing seen pos with
  | nil => cases h
  | cons x w ih =>
    obtain ⟨hw', hnext⟩ := drop_of_cons hw
    rcases List.mem_cons.1 h with rfl | h
    · exact ⟨⟨hpos, hw.symm⟩, Nat.le_refl _⟩
    · obtain ⟨hc, hle⟩ := ih (by omega) hw' h
      exact ⟨hc, by omega⟩

theorem mem_places (h : c ∈ places code) : c.At code := (mem_placesFrom (Nat.zero_le _) h).1

theorem placesFrom_pairwise (hpos : pos ≤ code.length) :
    (placesFrom seen pos (code.drop pos)).Pairwise fun c d => c.pos < d.pos := by
  generalize hw : code.drop pos = w
  induction w generalizing seen pos with
  | nil => exact .nil
  | cons x w ih =>
    obtain ⟨hw', hnext⟩ := drop_of_cons hw
    refine List.pairwise_cons.2 ⟨?_, ih (by omega) hw'⟩
    intro d hd
    rw [← hw'] at hd
    exact (mem_placesFrom (by omega) hd).2

/-! ## Outermost stretches -/

/-- Of stretches in order those that do not begin inside of one that is kept already. -/
def outermostFrom (span : α → Span) (stop : Nat) : List α → List α
  | [] => []
  | a :: as =>
    if (span a).start < stop then outermostFrom span stop as else a :: outermostFrom span (span a).stop as

/-- **The outermost stretches** of some that are in order. -/
def outermost (span : α → Span) (as : List α) : List α := outermostFrom span 0 as

/-- What a look sees. -/
def Sighting.item? : Sighting α → Option α
  | .found a _ => some a
  | .nothing | .over => none

/-- **A sweep finds the outermost of all stretches that can be seen**, if it never gives up. It waits for the end of the
last one kept. -/
theorem sweepFrom_eq_outermostFrom (hspan : Spans look code span) (hgoes : ∀ c, look c ≠ .over)
    (hpos : pos ≤ code.length) : sweepFrom look seen pos (stop - pos) (code.drop pos) =
      outermostFrom span stop ((placesFrom seen pos (code.drop pos)).filterMap fun c => (look c).item?) := by
  generalize hw : code.drop pos = w
  induction w generalizing seen pos stop with
  | nil => rfl
  | cons x w ih =>
    obtain ⟨hw', hnext⟩ := drop_of_cons hw
    -- the rest is swept with whatever is left to wait
    have hrest : ∀ stop wait, stop - (pos + 1) = wait → sweepFrom look (x :: seen) (pos + 1) wait w =
        outermostFrom span stop ((placesFrom (x :: seen) (pos + 1) w).filterMap fun c => (look c).item?) := by
      rintro stop _ rfl
      exact ih (by omega) hw'
    rw [sweepFrom, placesFrom]
    rcases hlook : look ⟨seen, pos, x :: w⟩ with _ | _ | ⟨a, n⟩
    · have hnone : (look ⟨seen, pos, x :: w⟩).item? = none := by rw [hlook]; rfl
      rw [List.filterMap_cons_none (f := fun c => (look c).item?) hnone]
      split
      · exact hrest stop _ (by omega)
      · exact hrest stop 0 (by omega)
    · exact absurd hlook (hgoes _)
    · -- a stretch is kept exactly if the sweep does not wait any more where it begins
      obtain ⟨hstart, hstop, hn, -⟩ := hspan _ a n ⟨hpos, hw.symm⟩ hlook
      simp only at hstart hstop
      have hsome : (look ⟨seen, pos, x :: w⟩).item? = some a := by rw [hlook]; rfl
      rw [List.filterMap_cons_some (f := fun c => (look c).item?) hsome, outermostFrom, hstart]
      split
      · rw [if_pos (by omega)]
        exact hrest stop _ (by omega)
      · rw [if_neg (by omega), hstop]
        exact congrArg (a :: ·) (hrest (pos + n) (n - 1) (by omega))

/-! ## Words -/

/-- **At most one word begins at a place**: the one that goes on as far as the bytes of identifiers do. -/
theorem takeWhile_of_wordHere (ha : ∀ x ∈ a, isIdent x = true) (h : wordHere before a r = true) :
    r.takeWhile isIdent = a := by
  simp only [wordHere, Bool.and_eq_true, Bool.not_eq_true'] at h
  obtain ⟨⟨hword, -⟩, hend⟩ := h
  obtain ⟨r', rfl⟩ := List.isPrefixOf_iff_prefix.1 hword
  rw [List.drop_left] at hend
  apply takeWhile_stretch ha
  intro y hy
  rwa [hy, Option.any_some] at hend

/-- Of things that exclude each other at most one can be seen. -/
theorem filterMap_eq_find? {l : List α} {p : α → Bool} {f : α → Option β}
    (hapart : l.Pairwise fun a b => ¬(p a = true ∧ p b = true)) (hnone : ∀ a, p a = false → f a = none) :
    l.filterMap f = ((l.find? p).bind f).toList := by
  induction l with
  | nil => rfl
  | cons a l ih =>
    rw [List.pairwise_cons] at hapart
    cases ha : p a with
    | true =>
      have hothers : l.filterMap f = [] := by
        rw [List.filterMap_eq_nil_iff]
        intro b hb
        exact hnone b (Bool.eq_false_iff.2 fun h => hapart.1 b hb ⟨ha, h⟩)
      rw [List.find?_cons_of_pos ha, Option.bind_some]
      cases hf : f a with
      | none => rw [List.filterMap_cons_none hf, hothers]; rfl
      | some b => rw [List.filterMap_cons_some hf, hothers]; rfl
    | false =>
      rw [List.filterMap_cons_none (hnone a ha), ih hapart.2, List.find?_cons_of_neg (by simp [ha])]

/-- Seeing things by kinds or by places is seeing the same things. -/
theorem flatMap_filterMap_perm {κ : Type} {kinds : List κ} {f : κ → α → Option β} {g : α → Option β}
    (h : ∀ a, kinds.filterMap (f · a) = (g a).toList) (l : List α) :
    (kinds.flatMap fun k => l.filterMap (f k)).Perm (l.filterMap g) := by
  induction l with
  | nil => simp
  | cons a l ih =>
    have hcut : ∀ k, (a :: l).filterMap (f k) = (f k a).toList ++ l.filterMap (f k) := by
      intro k
      rw [List.filterMap_cons]
      cases f k a <;> rfl
    have hhere : kinds.flatMap (fun k => (f k a).toList) = (g a).toList := by
      rw [← h a, List.filterMap_eq_flatMap_toList]
    have hall : (a :: l).filterMap g = (g a).toList ++ l.filterMap g := by
      rw [List.filterMap_cons]
      cases g a <;> rfl
    simp only [hcut]
    rw [hall, ← hhere]
    exact (List.flatMap_append_perm kinds _ _).symm.trans (ih.append_left _)

/-! ## Searches -/

namespace Style.HelperCall

/-- The call of a function at a place of the code mask. -/
def callOf? (t name : Text) (c : Cursor) : Option HelperCall :=
  let start := (c.advance name.length).skip isSpaceOrTab
  if !wordHere c.byteBefore? name c.rest || isOtherName c || start.byte? ≠ some '(' then none
  else (start.group? '(' ')').map fun stop =>
    ⟨⟨c.pos, stop.pos⟩, name, splitTopLevel ',' (slice t (start.pos + 1) (stop.pos - 1)), lineNumberAt t c.pos⟩

/-- Looks for the name of a function. Whatever it is part of, the search goes on behind it. -/
def lookFor (t name : Text) (c : Cursor) : Sighting (Option HelperCall) :=
  if startsWith c.rest name then .found (callOf? t name c) name.length else .nothing

/-- **The calls of one function**, those inside of other calls too. -/
def search (t name : Text) : List HelperCall := (sweep (lookFor t name) (codeMask t)).reduceOption

theorem callOf?_of_not_word (h : wordHere c.byteBefore? name c.rest = false) : callOf? t name c = none := by
  unfold callOf?
  rw [h]
  rfl

theorem callOf?_behind_ident (h : seen.head?.any isIdent = true) : callOf? t name ⟨seen, pos, w⟩ = none := by
  apply callOf?_of_not_word
  show wordHere seen.head? name w = false
  rw [wordHere, h]
  simp

/-- **A search misses no place where its word begins.** While it waits it is inside of the name. -/
theorem reduceOption_sweepFrom (hname : ∀ x ∈ name, isIdent x = true) (hnil : name ≠ [])
    (hinside : 0 < wait → seen.head?.any isIdent = true ∧ ∀ x ∈ w.take (wait - 1), isIdent x = true) :
    (sweepFrom (lookFor t name) seen pos wait w).reduceOption = (placesFrom seen pos w).filterMap (callOf? t name) := by
  induction w generalizing seen pos wait with
  | nil => rfl
  | cons x w ih =>
    rw [sweepFrom, placesFrom]
    split
    · next hwait =>
      -- inside of the name no call begins, so nothing is missed there
      obtain ⟨hbefore, hnext⟩ := hinside hwait
      rw [List.filterMap_cons_none (callOf?_behind_ident hbefore)]
      apply ih
      intro hwait'
      obtain ⟨n, rfl⟩ : ∃ n, wait = n + 2 := ⟨wait - 2, by omega⟩
      rw [Nat.add_sub_cancel (n + 1) 1, List.take_succ_cons] at hnext
      exact ⟨hnext x List.mem_cons_self, fun y hy => hnext y (List.mem_cons_of_mem x hy)⟩
    · by_cases hword : startsWith (x :: w) name = true
      · have hlook : lookFor t name ⟨seen, pos, x :: w⟩ = .found (callOf? t name ⟨seen, pos, x :: w⟩) name.length :=
          if_pos hword
        obtain ⟨r, hr⟩ := List.isPrefixOf_iff_prefix.1 hword
        have hrest : (sweepFrom (lookFor t name) (x :: seen) (pos + 1) (name.length - 1) w).reduceOption =
            (placesFrom (x :: seen) (pos + 1) w).filterMap (callOf? t name) := by
          apply ih
          intro hwait
          cases name with
          | nil => exact absurd rfl hnil
          | cons y name =>
            obtain ⟨rfl, hw⟩ : y = x ∧ name ++ r = w := List.cons.inj hr
            refine ⟨hname y List.mem_cons_self, ?_⟩
            intro z hz
            have hlength : (y :: name).length - 1 - 1 ≤ name.length := Nat.sub_le _ 1
            rw [← hw, List.take_append_of_le_length hlength] at hz
            exact hname z (List.mem_cons_of_mem y (List.mem_of_mem_take hz))
        rw [hlook]
        show (callOf? t name _ :: sweepFrom _ _ _ _ w).reduceOption = _
        cases hcall : callOf? t name ⟨seen, pos, x :: w⟩ with
        | none => rw [List.filterMap_cons_none hcall, List.reduceOption_cons_of_none, hrest]
        | some call => rw [List.filterMap_cons_some hcall, List.reduceOption_cons_of_some, hrest]
      · have hlook : lookFor t name ⟨seen, pos, x :: w⟩ = .nothing := if_neg hword
        have hnone : callOf? t name ⟨seen, pos, x :: w⟩ = none := by
          apply callOf?_of_not_word
          simp [wordHere, hword]
        rw [hlook, List.filterMap_cons_none hnone]
        exact ih fun hwait => absurd hwait (Nat.lt_irrefl 0)

theorem colorHelpers_idents (h : name ∈ colorHelpers) : (∀ x ∈ name, isIdent x = true) ∧ name ≠ [] := by
  have hall : colorHelpers.all (fun name => name.all isIdent && !name.isEmpty) = true := by decide
  simpa using List.all_eq_true.1 hall name h

theorem search_eq (hname : name ∈ colorHelpers) (t : Text) :
    search t name = (places (codeMask t)).filterMap (callOf? t name) := by
  obtain ⟨hidents, hnil⟩ := colorHelpers_idents hname
  exact reduceOption_sweepFrom hidents hnil fun hwait => absurd hwait (Nat.lt_irrefl 0)

/-- The names of the functions exclude each other. -/
theorem colorHelpers_apart (before : Option Char) (r : Text) :
    colorHelpers.Pairwise fun a b => ¬(wordHere before a r = true ∧ wordHere before b r = true) := by
  have hdistinct : colorHelpers.Pairwise (· ≠ ·) := by decide
  apply hdistinct.imp_of_mem
  rintro a b ha hb hne ⟨hworda, hwordb⟩
  have hruna := takeWhile_of_wordHere (colorHelpers_idents ha).1 hworda
  have hrunb := takeWhile_of_wordHere (colorHelpers_idents hb).1 hwordb
  exact hne (hruna.symm.trans hrunb)

/-- A look sees what one of the searches sees there. -/
theorem item?_look (t : Text) (c : Cursor) : (HelperCall.look t c).item? =
    (colorHelpers.find? fun name => wordHere c.byteBefore? name c.rest).bind (callOf? t · c) := by
  unfold HelperCall.look
  cases hname : colorHelpers.find? fun name => wordHere c.byteBefore? name c.rest with
  | none => rfl
  | some name =>
    have hword : wordHere c.byteBefore? name c.rest = true := by simpa using List.find?_some hname
    rw [Option.bind_some, callOf?, hword]
    dsimp only
    rw [Bool.not_true, Bool.false_or]
    split
    · rfl
    · split
      · next hgroup => rw [hgroup]; rfl
      · next stop hgroup => rw [hgroup]; rfl

theorem filterMap_callOf? (t : Text) (c : Cursor) :
    colorHelpers.filterMap (callOf? t · c) = (HelperCall.look t c).item?.toList := by
  rw [item?_look]
  exact filterMap_eq_find? (colorHelpers_apart _ _) fun name => callOf?_of_not_word

theorem look_spans (t : Text) : Spans (HelperCall.look t) (codeMask t) (·.span) :=
  fun _ _ _ hc hlook => (HelperCall.look_found hc hlook).1

theorem look_ne_over (t : Text) (c : Cursor) : HelperCall.look t c ≠ Sighting.over := by
  unfold HelperCall.look
  split
  · nofun
  · dsimp only
    split
    · nofun
    · split <;> nofun

/-- All calls of a text, in order. -/
def all (t : Text) : List HelperCall := (places (codeMask t)).filterMap fun c => (HelperCall.look t c).item?

theorem item?_start {call : HelperCall} (h : c.At (codeMask t)) (hcall : (HelperCall.look t c).item? = some call) :
    call.span.start = c.pos := by
  rcases hlook : HelperCall.look t c with _ | _ | ⟨other, n⟩ <;> rw [hlook] at hcall <;> cases hcall
  exact (HelperCall.look_found h hlook).1.1

theorem all_pairwise (t : Text) : (all t).Pairwise fun a b => a.span.start < b.span.start := by
  have hplaces : (places (codeMask t)).Pairwise fun c d => c.pos < d.pos := placesFrom_pairwise (Nat.zero_le _)
  rw [all, List.pairwise_filterMap]
  apply hplaces.imp_of_mem
  intro c d hc hd hlt a ha b hb
  rwa [item?_start (mem_places hc) ha, item?_start (mem_places hd) hb]

/-- The searches find all calls. -/
theorem searches_perm (t : Text) : (colorHelpers.flatMap (search t)).Perm (all t) := by
  have hsearches : colorHelpers.flatMap (search t) =
      colorHelpers.flatMap fun name => (places (codeMask t)).filterMap (callOf? t name) :=
    List.flatMap_congr fun name hname => search_eq hname t
  rw [hsearches]
  exact flatMap_filterMap_perm (filterMap_callOf? t) _

/-- Putting the calls in order gives the list of all calls, since no two of them begin at the same place. -/
theorem mergeSort_searches (t : Text) :
    ((colorHelpers.flatMap (search t)).mergeSort fun a b => a.span.start ≤ b.span.start) = all t := by
  have hperm := (List.mergeSort_perm (colorHelpers.flatMap (search t)) fun a b => a.span.start ≤ b.span.start).trans
    (searches_perm t)
  have hsorted : ((colorHelpers.flatMap (search t)).mergeSort fun a b => a.span.start ≤ b.span.start).Pairwise
      fun a b => decide (a.span.start ≤ b.span.start) = true := by
    apply List.pairwise_mergeSort
    · intro a b c hab hbc
      simp only [decide_eq_true_eq] at hab hbc ⊢
      exact Nat.le_trans hab hbc
    · intro a b
      simpa using Nat.le_total _ _
  have hordered : (all t).Pairwise fun a b => decide (a.span.start ≤ b.span.start) = true := by
    apply (all_pairwise t).imp
    intro a b hlt
    exact decide_eq_true (Nat.le_of_lt hlt)
  have hdistinct : ((all t).map (·.span.start)).Nodup := List.pairwise_map.2 ((all_pairwise t).imp Nat.ne_of_lt)
  apply hperm.eq_of_pairwise _ hsorted hordered
  intro a b ha hb hab hba
  simp only [decide_eq_true_eq] at hab hba
  exact List.inj_on_of_nodup_map hdistinct (hperm.mem_iff.1 ha) hb (Nat.le_antisymm hab hba)

/-- **One sweep finds what a search for each function finds**, put in order, and without the calls inside of others. -/
theorem find_eq_outermost (t : Text) : find t =
    outermost (·.span) ((colorHelpers.flatMap (search t)).mergeSort fun a b => a.span.start ≤ b.span.start) := by
  rw [mergeSort_searches]
  exact sweepFrom_eq_outermostFrom (look_spans t) (look_ne_over t) (Nat.zero_le _)

end Style.HelperCall

end Flatsheet
