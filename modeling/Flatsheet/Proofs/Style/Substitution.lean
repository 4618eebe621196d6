import Flatsheet.Proofs.Style.HelperRounds
import Flatsheet.Proofs.Style.IncludeRounds
import Flatsheet.Proofs.Style.Searches

/-!
# `Proofs.Style.Substitution` — a round of replacing is one substitution

The loops that expand includes and replace calls of colour functions go through what they have found from the last thing
to the first, and put each piece into the text that the later ones have left behind. What comes out of such a round can
be said without any order (`substitute`): a byte that no span covers is kept, and where a span begins its piece is
written. The two are the same (`replaceSpans_eq_substitute`), since what a scanner finds is laid out well
(`Disciplined`): spans that are not empty, inside the text, one behind the other.

The main result is `findings_disciplined`.
-/

namespace Flatsheet.Style

open Text Check Mask

variable {t w a : Text} {es : List (Span × Text)} {e : Span × Text} {spans : List Span} {i pos : Nat} {c : Char}

/-! ## All pieces at once -/

/-- What becomes of a byte of a text at an offset: the pieces of the spans that begin there, and the byte itself if no
span covers it. -/
def substituteByte (es : List (Span × Text)) (pos : Nat) (c : Char) : Text :=
  (es.filter (·.1.start = pos)).flatMap (·.2) ++ if es.any (·.1.covers pos) then [] else [c]

/-- What becomes of a text whose first byte has the offset `pos`. -/
def substituteFrom (es : List (Span × Text)) (pos : Nat) : Text → Text
  | [] => []
  | c :: r => substituteByte es pos c ++ substituteFrom es (pos + 1) r

/-- **The text with a piece in place of each span, all at once.** The spans are those of the text as it is, and their
order does not matter. -/
def substitute (t : Text) (es : List (Span × Text)) : Text := substituteFrom es 0 t

/-! ## Bytes -/

theorem substituteByte_kept (hstart : ∀ e ∈ es, e.1.start ≠ pos) (hcovers : ∀ e ∈ es, e.1.covers pos = false)
    (c : Char) : substituteByte es pos c = [c] := by
  have hnone : es.filter (·.1.start = pos) = [] := by simpa using hstart
  have huncovered : es.any (·.1.covers pos) = false := by simpa using hcovers
  rw [substituteByte, hnone, huncovered]
  rfl

theorem substituteByte_covered (hstart : ∀ e ∈ es, e.1.start ≠ pos) (he : e ∈ es) (hcovers : e.1.covers pos = true)
    (c : Char) : substituteByte es pos c = [] := by
  have hnone : es.filter (·.1.start = pos) = [] := by simpa using hstart
  have hcovered : es.any (·.1.covers pos) = true := List.any_eq_true.2 ⟨e, he, hcovers⟩
  rw [substituteByte, hnone, hcovered]
  rfl

theorem substituteByte_begins (hpos : e.1.start = pos) (hcovers : e.1.covers pos = true)
    (hothers : ∀ f ∈ es, f.1.start ≠ pos) (c : Char) : substituteByte (e :: es) pos c = e.2 := by
  have hone : (e :: es).filter (·.1.start = pos) = [e] := by
    rw [List.filter_cons_of_pos (by simpa using hpos)]
    simpa using hothers
  have hcovered : (e :: es).any (·.1.covers pos) = true := List.any_eq_true.2 ⟨e, List.mem_cons_self, hcovers⟩
  rw [substituteByte, hone, hcovered]
  simp

/-- A span that ends before a byte has nothing to do with it. -/
theorem substituteByte_behind (hlt : e.1.start < e.1.stop) (hpos : e.1.stop ≤ pos) (c : Char) :
    substituteByte (e :: es) pos c = substituteByte es pos c := by
  have hstart : e.1.start ≠ pos := by omega
  have hcovers : e.1.covers pos = false := Span.covers_eq_false_iff.2 (.inr hpos)
  rw [substituteByte, substituteByte, List.filter_cons_of_neg (by simpa using hstart), List.any_cons, hcovers,
    Bool.false_or]

/-! ## Stretches -/

theorem substituteFrom_append (es : List (Span × Text)) (pos : Nat) (a b : Text) :
    substituteFrom es pos (a ++ b) = substituteFrom es pos a ++ substituteFrom es (pos + a.length) b := by
  induction a generalizing pos with
  | nil => rfl
  | cons c r ih =>
    rw [List.cons_append, substituteFrom, substituteFrom, ih, List.append_assoc, List.length_cons, Nat.add_assoc,
      Nat.add_comm 1]

/-- What stands before all spans is kept. -/
theorem substituteFrom_before (h : ∀ e ∈ es, pos + w.length ≤ e.1.start) : substituteFrom es pos w = w := by
  induction w generalizing pos with
  | nil => rfl
  | cons c r ih =>
    have hlt : ∀ e ∈ es, pos < e.1.start := by
      intro e he
      have hle := h e he
      rw [List.length_cons] at hle
      omega
    have hkept : substituteByte es pos c = [c] :=
      substituteByte_kept (fun e he => Nat.ne_of_gt (hlt e he))
        (fun e he => Span.covers_eq_false_iff.2 (.inl (hlt e he))) c
    rw [substituteFrom, hkept, ih]
    · rfl
    · intro e he
      have hle := h e he
      rw [List.length_cons] at hle
      omega

/-- Behind its first byte nothing of a span is left. -/
theorem substituteFrom_inside (he : e ∈ es) (hpos : e.1.start < pos) (hstop : pos + w.length ≤ e.1.stop)
    (hothers : ∀ f ∈ es, f.1.start ≤ e.1.start ∨ e.1.stop ≤ f.1.start) : substituteFrom es pos w = [] := by
  induction w generalizing pos with
  | nil => rfl
  | cons c r ih =>
    rw [List.length_cons] at hstop
    have hcovers : e.1.covers pos = true := Span.covers_iff.2 ⟨by omega, by omega⟩
    have hstart : ∀ f ∈ es, f.1.start ≠ pos := by
      intro f hf
      have hf' := hothers f hf
      omega
    rw [substituteFrom, substituteByte_covered hstart he hcovers, ih (by omega) (by omega)]
    rfl

/-- **A span becomes its piece.** -/
theorem substituteFrom_span (hlt : e.1.start < e.1.stop) (hlength : e.1.start + w.length = e.1.stop)
    (hothers : ∀ f ∈ es, e.1.stop ≤ f.1.start) : substituteFrom (e :: es) e.1.start w = e.2 := by
  cases w with
  | nil =>
    rw [List.length_nil] at hlength
    omega
  | cons c r =>
    rw [List.length_cons] at hlength
    have hcovers : e.1.covers e.1.start = true := Span.covers_iff.2 ⟨Nat.le_refl _, hlt⟩
    have hstart : ∀ f ∈ es, f.1.start ≠ e.1.start := by
      intro f hf
      have hf' := hothers f hf
      omega
    have hrest : ∀ f ∈ e :: es, f.1.start ≤ e.1.start ∨ e.1.stop ≤ f.1.start := by
      intro f hf
      rcases List.mem_cons.1 hf with rfl | hf
      · exact .inl (Nat.le_refl _)
      · exact .inr (hothers f hf)
    rw [substituteFrom, substituteByte_begins rfl hcovers hstart,
      substituteFrom_inside List.mem_cons_self (Nat.lt_succ_self _) (by omega) hrest, List.append_nil]

/-- Behind a span it no longer matters. -/
theorem substituteFrom_behind (hlt : e.1.start < e.1.stop) (hpos : e.1.stop ≤ pos) (w : Text) :
    substituteFrom (e :: es) pos w = substituteFrom es pos w := by
  induction w generalizing pos with
  | nil => rfl
  | cons c r ih => rw [substituteFrom, substituteFrom, substituteByte_behind hlt hpos, ih (Nat.le_succ_of_le hpos)]

/-! ## Rounds -/

/-- From an offset on, up to which no span reaches. -/
theorem replaceSpans_eq_from (apart : Apart t (es.map (·.1))) (hi : i ≤ t.length) (hfrom : ∀ e ∈ es, i ≤ e.1.start) :
    replaceSpans t es = t.take i ++ substituteFrom es i (t.drop i) := by
  induction es generalizing i with
  | nil =>
    rw [substituteFrom_before (by simp), List.take_append_drop]
    rfl
  | cons e es ih =>
    obtain ⟨hordered, hinside⟩ := apart
    rw [List.map_cons, List.pairwise_cons] at hordered
    obtain ⟨hlt, hstop⟩ := hinside e.1 List.mem_cons_self
    have hle : i ≤ e.1.start := hfrom e List.mem_cons_self
    have hothers : ∀ f ∈ es, e.1.stop ≤ f.1.start := fun f hf => hordered.1 f.1 (List.mem_map_of_mem hf)
    have hrest := ih ⟨hordered.2, fun s hs => hinside s (List.mem_cons_of_mem _ hs)⟩ hstop hothers
    -- what the later edits have left has the text up to the end of the span in front
    have hput : replaceSpans t (e :: es) =
        t.take e.1.start ++ e.2 ++ substituteFrom es e.1.stop (t.drop e.1.stop) := by
      have hstopped : (t.take e.1.stop).length = e.1.stop := List.length_take_of_le hstop
      show replaceSpan (replaceSpans t es) e.1 e.2 = _
      rw [hrest, replaceSpan, List.drop_left' hstopped, List.take_append_of_le_length (by omega), List.take_take,
        Nat.min_eq_left (Nat.le_of_lt hlt)]
    have hgap : (slice t i e.1.start).length = e.1.start - i := length_slice (by omega)
    have hspan : (slice t e.1.start e.1.stop).length = e.1.stop - e.1.start := length_slice hstop
    have hbefore : substituteFrom (e :: es) i (slice t i e.1.start) = slice t i e.1.start := by
      apply substituteFrom_before
      intro f hf
      rcases List.mem_cons.1 hf with rfl | hf
      · omega
      · have hf' := hothers f hf
        omega
    have hhere : substituteFrom (e :: es) e.1.start (slice t e.1.start e.1.stop) = e.2 :=
      substituteFrom_span hlt (by omega) hothers
    have hmiddle : i + (slice t i e.1.start).length = e.1.start := by omega
    have hend : e.1.start + (slice t e.1.start e.1.stop).length = e.1.stop := by omega
    rw [hput, drop_eq_slice_append hle, drop_eq_slice_append (Nat.le_of_lt hlt), substituteFrom_append, hbefore,
      hmiddle, substituteFrom_append, hhere, hend, substituteFrom_behind hlt (Nat.le_refl _), ← take_append_slice hle]
    simp only [List.append_assoc]

/-- **Replacing from the last span to the first is substituting them all at once.** -/
theorem replaceSpans_eq_substitute (apart : Apart t (es.map (·.1))) : replaceSpans t es = substitute t es :=
  replaceSpans_eq_from apart (Nat.zero_le _) fun _ _ => Nat.zero_le _

/-- What takes the place of the includes of a text. -/
def includeEdits (t : Text) : List (Span × Text) := (Include.find t).map fun i => (i.span, i.call.replacement)

/-- What takes the place of the calls of colour functions of a text. -/
def helperEdits (t : Text) : List (Span × Text) := (HelperCall.find t).map fun h => (h.span, h.replacement)

theorem includeRound_eq_substitute (t : Text) : includeRound t = substitute t (includeEdits t) := by
  have apart : Apart t ((includeEdits t).map (·.1)) := by
    rw [includeEdits, List.map_map]
    exact includes_apart t
  exact replaceSpans_eq_substitute apart

theorem helperRound_eq_substitute (t : Text) : helperRound t = substitute t (helperEdits t) := by
  have apart : Apart t ((helperEdits t).map (·.1)) := by
    rw [helperEdits, List.map_map]
    exact helpers_apart t
  exact replaceSpans_eq_substitute apart

/-- The loop goes on with the text after a round. -/
theorem roundsUpTo_succ {α : Type} (find : Text → List α) {round : Text → Text} (settled : find t = [] → round t = t)
    (rounds : Nat) : (roundsUpTo find round (rounds + 1) t).1 = (roundsUpTo find round rounds (round t)).1 := by
  rw [roundsUpTo]
  split
  · next hnone =>
    have hnone' : find t = [] := List.isEmpty_iff.1 hnone
    rw [settled hnone']
    cases rounds with
    | zero => rfl
    | succ rounds => rw [roundsUpTo, if_pos hnone]
  · rfl

/-! ## What scanners find -/

/-- **The spans are laid out well**: none is empty, each is inside the text, each begins behind the beginning of the one
before it, and no two of them have a byte in common. -/
structure Disciplined (t : Text) (spans : List Span) : Prop where
  nonempty : ∀ s ∈ spans, s.start < s.stop
  inside : ∀ s ∈ spans, s.stop ≤ t.length
  increasing : spans.Pairwise fun s s' => s.start < s'.start
  disjoint : spans.Pairwise fun s s' => ∀ i, s.covers i = true → s'.covers i = false

theorem disciplined_of_apart (h : Apart t spans) : Disciplined t spans := by
  obtain ⟨hordered, hinside⟩ := h
  refine ⟨fun s hs => (hinside s hs).1, fun s hs => (hinside s hs).2, ?_, ?_⟩
  · apply hordered.imp_of_mem
    intro s s' hs _ hle
    exact Nat.lt_of_lt_of_le (hinside s hs).1 hle
  · apply hordered.imp
    intro s s' hle i hi
    exact Span.covers_eq_false_iff.2 (.inl (Nat.lt_of_lt_of_le (Span.covers_iff.1 hi).2 hle))

/-- **What the scanners find is laid out well**, the calls of colour functions also when each function is searched for
on its own. So each round of the loops that expand includes and replace calls of colour functions is one substitution,
with pieces that the text at the start of the round has. -/
theorem findings_disciplined (t : Text) :
    Disciplined t ((Declaration.find t).map (·.span)) ∧
      Disciplined t ((MixinDefinition.find t).map (·.span)) ∧
      Disciplined t ((Include.find t).map (·.span)) ∧
      Disciplined t ((HelperCall.find t).map (·.span)) ∧
      HelperCall.find t = outermost (·.span)
        ((colorHelpers.flatMap (HelperCall.search t)).mergeSort fun a b => a.span.start ≤ b.span.start) ∧
      Disciplined t ((Import.find t).map (·.span)) ∧
      (expandRound t (Include.find t) = substitute t (includeEdits t) ∧
        ∀ rounds, (expandRounds (rounds + 1) t).1 = (expandRounds rounds (substitute t (includeEdits t))).1) ∧
      (replaceSpans t (helperEdits t) = substitute t (helperEdits t) ∧
        ∀ rounds, (replaceHelperRounds (rounds + 1) t).1 =
          (replaceHelperRounds rounds (substitute t (helperEdits t))).1) := by
  refine ⟨?_, ?_, ?_, ?_, HelperCall.find_eq_outermost t, ?_, ⟨includeRound_eq_substitute t, fun rounds => ?_⟩,
    ⟨helperRound_eq_substitute t, fun rounds => ?_⟩⟩
  · exact disciplined_of_apart (apart_of_codeMask (Declaration.find_apart t).1)
  · exact disciplined_of_apart (apart_of_codeMask (MixinDefinition.find_apart t).1)
  · exact disciplined_of_apart (includes_apart t)
  · exact disciplined_of_apart (helpers_apart t)
  · exact disciplined_of_apart (apart_of_codeMask (Import.find_apart t).1)
  · rw [expandRounds_eq_upTo, expandRounds_eq_upTo, ← includeRound_eq_substitute]
    exact roundsUpTo_succ Include.find includeRound_of_settled rounds
  · rw [replaceHelperRounds_eq_upTo, replaceHelperRounds_eq_upTo, ← helperRound_eq_substitute]
    apply roundsUpTo_succ
    intro hnone
    rw [helperRound, hnone]
    rfl

end Flatsheet.Style
