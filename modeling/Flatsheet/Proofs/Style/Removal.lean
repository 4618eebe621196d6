import Flatsheet.Proofs.Style.Remainder

/-!
# `Proofs.Style.Removal` — removing statements loses nothing else

Statements are cut out one after the other, the last one first, and each cut may take blanks along: those behind the
statement, or the rest of its lines. What is left is compared with the bytes of the text that are outside all
statements (`outside`). It is that text less some of its blanks (`LosesBlanks`).

The cuts do not get in each other's way as each statement ends in a byte that is not blank: what is cut out behind
it does not reach back into it (`losesBlanks_eraseStatements`). That is so of the imports, of the mixin definitions
and of the declarations that are found in a text (`removal_loses_blanks`).
-/

namespace Flatsheet.Style

open Text Check

variable {t t' u v w : Text} {s : Span} {spans : List Span} {i : Nat}

/-! ## Outside the statements -/

/-- The bytes of a text that begins at offset `pos`, less those that a span covers. -/
def outsideFrom (spans : List Span) (pos : Nat) : Text → Text
  | [] => []
  | c :: r =>
    if spans.any (·.covers pos) then outsideFrom spans (pos + 1) r else c :: outsideFrom spans (pos + 1) r

/-- **The text with the bytes of the spans left out.** -/
def outside (spans : List Span) (t : Text) : Text := outsideFrom spans 0 t

theorem outsideFrom_append (spans : List Span) (i : Nat) (u v : Text) :
    outsideFrom spans i (u ++ v) = outsideFrom spans i u ++ outsideFrom spans (i + u.length) v := by
  induction u generalizing i with
  | nil => rfl
  | cons c u ih =>
    have hnext : i + 1 + u.length = i + (c :: u).length := by
      rw [List.length_cons]
      omega
    rw [List.cons_append, outsideFrom, outsideFrom, ih, hnext]
    split <;> rfl

/-- What no span covers is outside. -/
theorem outsideFrom_eq_self (h : ∀ k, i ≤ k → k < i + u.length → spans.any (·.covers k) = false) :
    outsideFrom spans i u = u := by
  induction u generalizing i with
  | nil => rfl
  | cons c u ih =>
    rw [List.length_cons] at h
    have hhere : spans.any (·.covers i) = false := h i (Nat.le_refl i) (by omega)
    have hrest : outsideFrom spans (i + 1) u = u := ih fun k hk hlt => h k (by omega) (by omega)
    rw [outsideFrom, hhere, if_neg Bool.false_ne_true, hrest]

/-- What a span covers is not. -/
theorem outsideFrom_eq_nil (h : ∀ k, i ≤ k → k < i + u.length → spans.any (·.covers k) = true) :
    outsideFrom spans i u = [] := by
  induction u generalizing i with
  | nil => rfl
  | cons c u ih =>
    rw [List.length_cons] at h
    have hhere : spans.any (·.covers i) = true := h i (Nat.le_refl i) (by omega)
    have hrest : outsideFrom spans (i + 1) u = [] := ih fun k hk hlt => h k (by omega) (by omega)
    rw [outsideFrom, hhere, if_pos rfl, hrest]

/-- A span that ends before does not matter. -/
theorem outsideFrom_cons (h : s.stop ≤ i) (spans : List Span) (u : Text) :
    outsideFrom (s :: spans) i u = outsideFrom spans i u := by
  induction u generalizing i with
  | nil => rfl
  | cons c u ih =>
    have hpast : s.covers i = false := Span.covers_eq_false_iff.2 (.inr h)
    rw [outsideFrom, outsideFrom, List.any_cons, hpast, Bool.false_or, ih (Nat.le_succ_of_le h)]

/-- **Outside of spans, the first of them given**: the text before it, and what is behind it outside the others. -/
theorem outside_cons (hlt : s.start < s.stop) (hstop : s.stop ≤ t.length) (hlater : ∀ s' ∈ spans, s.stop ≤ s'.start) :
    outside (s :: spans) t = t.take s.start ++ outsideFrom spans s.stop (t.drop s.stop) ∧
      outside spans t = t.take s.stop ++ outsideFrom spans s.stop (t.drop s.stop) := by
  have hothers : ∀ k, k < s.stop → spans.any (·.covers k) = false := by
    intro k hk
    rw [List.any_eq_false]
    intro s' hs'
    have hstart := hlater s' hs'
    rw [Span.covers_iff]
    omega
  have hfront : (t.take s.start).length = s.start := List.length_take_of_le (by omega)
  have hmiddle : (slice t s.start s.stop).length = s.stop - s.start := length_slice hstop
  constructor
  · -- the text falls into what is before the span, what is in it and what is behind it
    have hcut : t = t.take s.start ++ slice t s.start s.stop ++ t.drop s.stop := by
      rw [take_append_slice (Nat.le_of_lt hlt), List.take_append_drop]
    have hbefore : outsideFrom (s :: spans) 0 (t.take s.start) = t.take s.start := by
      apply outsideFrom_eq_self
      intro k _ hk
      have hno : s.covers k = false := Span.covers_eq_false_iff.2 (.inl (by omega))
      rw [List.any_cons, hno, hothers k (by omega)]
      rfl
    have hinside : outsideFrom (s :: spans) s.start (slice t s.start s.stop) = [] := by
      apply outsideFrom_eq_nil
      intro k hk hk'
      have hyes : s.covers k = true := Span.covers_iff.2 ⟨hk, by omega⟩
      rw [List.any_cons, hyes, Bool.true_or]
    have hend : s.start + (s.stop - s.start) = s.stop := by omega
    calc outside (s :: spans) t
        = outsideFrom (s :: spans) 0 (t.take s.start ++ slice t s.start s.stop ++ t.drop s.stop) :=
          congrArg _ hcut
      _ = t.take s.start ++ [] ++ outsideFrom (s :: spans) s.stop (t.drop s.stop) := by
          rw [outsideFrom_append, outsideFrom_append, List.length_append, hbefore, Nat.zero_add, Nat.zero_add, hfront,
            hinside, hmiddle, hend]
      _ = t.take s.start ++ outsideFrom spans s.stop (t.drop s.stop) := by
          rw [List.append_nil, outsideFrom_cons (Nat.le_refl _)]
  · have hstopped : (t.take s.stop).length = s.stop := List.length_take_of_le hstop
    have hbefore : outsideFrom spans 0 (t.take s.stop) = t.take s.stop :=
      outsideFrom_eq_self fun k _ hk => hothers k (by omega)
    calc outside spans t
        = outsideFrom spans 0 (t.take s.stop ++ t.drop s.stop) := congrArg _ (List.take_append_drop _ _).symm
      _ = t.take s.stop ++ outsideFrom spans s.stop (t.drop s.stop) := by
          rw [outsideFrom_append, hbefore, Nat.zero_add, hstopped]

/-! ## Cutting out -/

/-- **A text is another one less some of its blanks.** -/
structure LosesBlanks (t t' : Text) : Prop where
  sublist : t'.Sublist t
  bare_eq : bare t' = bare t

/-- Cutting one statement out of a text loses blanks only, of what is before it and of what is behind it. -/
theorem losesBlanks_eraseStatement (hbehind : LosesBlanks w (t.drop s.stop)) :
    LosesBlanks (t.take s.start ++ w) (eraseStatement t s) := by
  obtain ⟨front, u, v, back, hfront, hback, heq, hu, hv, -⟩ := eraseStatement_pieces t s
  rw [hback] at hbehind
  have hu' : bare u = [] := bare_of_blanks fun c hc => (hu c hc).1
  have hv' : bare v = [] := bare_of_blanks hv
  rw [heq, hfront]
  constructor
  · apply List.Sublist.append
    · exact List.sublist_append_left front u
    · exact (List.sublist_append_right v back).trans hbehind.sublist
  · calc bare (front ++ back) = bare (front ++ u) ++ bare (v ++ back) := by
          rw [bare_append, bare_append, bare_append, hu', hv', List.append_nil, List.nil_append]
      _ = bare (front ++ u ++ w) := by rw [hbehind.bare_eq, bare_append (front ++ u)]

/-- **Cutting out statements that lie apart**, each of which ends in a byte that is not blank, leaves what is outside
of them less some of its blanks. -/
theorem losesBlanks_eraseStatements (apart : Apart t spans)
    (solid : ∀ s ∈ spans, ∀ c, byteBefore t s.stop = some c → isBlank c = false) :
    LosesBlanks (outside spans t) (eraseStatements t spans) := by
  induction spans with
  | nil =>
    have hall : outside [] t = t := outsideFrom_eq_self fun _ _ _ => rfl
    rw [hall]
    exact ⟨List.Sublist.refl t, rfl⟩
  | cons s spans ih =>
    obtain ⟨hordered, hinside⟩ := apart
    rw [List.pairwise_cons] at hordered
    obtain ⟨hlt, hstop⟩ := hinside s List.mem_cons_self
    have hothers := ih ⟨hordered.2, fun s' hs' => hinside s' (List.mem_cons_of_mem s hs')⟩
      fun s' hs' => solid s' (List.mem_cons_of_mem s hs')
    -- the statements behind have been cut out; up to the end of this one the text is as it was
    obtain ⟨hsame, -⟩ := take_eraseStatements hstop hordered.1 (solid s List.mem_cons_self)
    obtain ⟨htake, -⟩ := take_slice_congr hsame (Nat.le_of_lt hlt)
    obtain ⟨hout, hout'⟩ := outside_cons hlt hstop hordered.1
    have hbehind : LosesBlanks (outsideFrom spans s.stop (t.drop s.stop)) ((eraseStatements t spans).drop s.stop) := by
      rw [hout', ← List.take_append_drop s.stop (eraseStatements t spans), hsame] at hothers
      obtain ⟨hsublist, hbare⟩ := hothers
      rw [bare_append, bare_append] at hbare
      exact ⟨(List.append_sublist_append_left _).1 hsublist, List.append_cancel_left hbare⟩
    rw [hout, ← htake]
    exact losesBlanks_eraseStatement hbehind

/-! ## What is removed from a sheet -/

/-- What a scanner of the code mask finds can be cut out, if each finding ends in a byte that is not blank. -/
theorem losesBlanks_eraseFound {α : Type} {found : List α} {span : α → Span}
    (apart : Apart (codeMask t) (found.map span))
    (solid : ∀ a ∈ found, ∃ x, byteBefore (codeMask t) (span a).stop = some x ∧ isBlank x = false) :
    LosesBlanks (outside (found.map span) t) (eraseStatements t (found.map span)) := by
  apply losesBlanks_eraseStatements (apart_of_codeMask apart)
  intro s hs
  obtain ⟨a, ha, rfl⟩ := List.mem_map.1 hs
  obtain ⟨x, hx, hblank⟩ := solid a ha
  exact byteBefore_of_codeMask hx hblank

/-- **Removing imports, mixin definitions or declarations loses nothing else.** What is left are the bytes outside the
statements that have been found, in order, less some blanks: each byte that is not blank stays. -/
theorem removal_loses_blanks (t : Text) :
    LosesBlanks (outside ((Import.find t).map (·.span)) t) (removeImports t).1 ∧
    LosesBlanks (outside ((MixinDefinition.find t).map (·.span)) t) (removeDefinitions t).1 ∧
    LosesBlanks (outside ((Declaration.find t).map (·.span)) t) (remainder t) := by
  obtain ⟨himports, himportEnd⟩ := Import.find_apart t
  obtain ⟨hdefinitions, hdefinitionEnd⟩ := MixinDefinition.find_apart t
  obtain ⟨hdeclarations, hdeclarationEnd⟩ := Declaration.find_apart t
  exact ⟨losesBlanks_eraseFound himports himportEnd,
    losesBlanks_eraseFound hdefinitions fun m hm => ⟨'}', hdefinitionEnd m hm, rfl⟩,
    losesBlanks_eraseFound hdeclarations fun d hd => ⟨';', hdeclarationEnd d hd, rfl⟩⟩

end Flatsheet.Style
