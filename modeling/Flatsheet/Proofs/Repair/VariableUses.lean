import Flatsheet.Proofs.Repair.ClosedBlocks
import Flatsheet.Proofs.Repair.SecondCall
import Flatsheet.Proofs.Style.Interpolation
import Mathlib.Algebra.GroupWithZero.Nat
import Mathlib.Data.List.Forall2

/-!
# `Proofs.Repair.VariableUses` — the repair of an undefined variable

The repair goes through the lines of the files in scope. A line that no repair touches, or that begins with a
declaration of the variable, is left alone (`LeftAlone`). Any other line is read from left to right, and an expression
is written in the place of each use (`Rewritten`): what the scanner does comes to that
(`rewritten_replaceVariable`), and nothing else does (`Rewritten.unique`).

* **The second time.** What is rewritten can show a use that was none before: where `$` and the beginning of the name
  stand right before a use, and the `var` of the expression is the rest of the name (`Regrows`). Nothing else makes a
  use (`uses_rewritten_iff`), so the same error once more changes a line exactly if it regrows.
* **Lines that are left alone** are so afterwards, and no other line becomes one (`leftAlone_rewritten`).
-/

namespace Flatsheet.Repair

open Text Style Log

variable {name l l' r r' t u w : Text} {c : Char} {e : CompileError} {files : List Candidate}

/-! ## Uses -/

/-- No name goes on in the text. -/
def NameEnds (r : Text) : Prop := r.head?.any isIdent = false

instance (r : Text) : Decidable (NameEnds r) := inferInstanceAs (Decidable (_ = false))

/-- What holds of texts holds of the text from some place on. -/
def From (P : Text → Prop) (t : Text) : Prop := ∃ a r, t = a ++ r ∧ P r

/-- The text begins with a use of the variable. -/
def UsedHere (name t : Text) : Prop := ∃ r, t = reference name ++ r ∧ NameEnds r

/-- The text has a use of the variable. -/
def Uses (name : Text) : Text → Prop := From (UsedHere name)

/-- **An expression is written for each use of the variable**, from left to right, and the other bytes are kept. -/
inductive Rewritten (name : Text) : Text → Text → Prop
  | nil : Rewritten name [] []
  | use {r r' : Text} (ends : NameEnds r) (rest : Rewritten name r r') :
      Rewritten name (reference name ++ r) (expression name ++ r')
  | byte {c : Char} {r r' : Text} (other : ¬ UsedHere name (c :: r)) (rest : Rewritten name r r') :
      Rewritten name (c :: r) (c :: r')

theorem dollar_of_usedHere (h : UsedHere name (c :: r)) : c = '$' := by
  obtain ⟨r', hr, -⟩ := h
  exact (List.cons.inj hr).1

theorem usedHere_reference_iff : UsedHere name (reference name ++ r) ↔ NameEnds r := by
  constructor
  · rintro ⟨r', hr, hends⟩
    rwa [List.append_cancel_left hr]
  · exact fun hends => ⟨r, rfl, hends⟩

theorem nameEnds_append_dollar : NameEnds (u ++ '$' :: r) ↔ NameEnds u := by
  cases u with
  | nil => exact iff_of_true rfl rfl
  | cons c u => rfl

theorem from_cons_iff {P : Text → Prop} : From P (c :: r) ↔ P (c :: r) ∨ From P r := by
  constructor
  · rintro ⟨a, x, hcut, hx⟩
    cases a with
    | nil => exact .inl (hcut ▸ hx)
    | cons y a => exact .inr ⟨a, x, (List.cons.inj hcut).2, hx⟩
  · rintro (hhere | ⟨a, x, rfl, hx⟩)
    · exact ⟨[], _, rfl, hhere⟩
    · exact ⟨c :: a, x, rfl, hx⟩

theorem not_from_nil {P : Text → Prop} (h : ¬ P []) : ¬ From P [] := by
  rintro ⟨a, r, hcut, hr⟩
  obtain ⟨-, rfl⟩ := List.append_eq_nil_iff.1 hcut.symm
  exact h hr

/-- What begins with a dollar sign does not begin before one. -/
theorem from_append_iff {P : Text → Prop} (hP : ∀ {c r}, P (c :: r) → c = '$') (hu : '$' ∉ u) :
    From P (u ++ r) ↔ From P r := by
  induction u with
  | nil => rfl
  | cons c u ih =>
    rw [List.mem_cons, not_or] at hu
    rw [List.cons_append, from_cons_iff, ih hu.2]
    exact or_iff_right fun hhere => hu.1 (hP hhere).symm

theorem not_usedHere_nil : ¬ UsedHere name [] := by
  rintro ⟨r, hr, -⟩
  cases hr

theorem length_expression (name : Text) : (expression name).length = (reference name).length + 6 := by
  have hmark : mark.length = 6 := rfl
  simp only [expression, reference, List.length_append, List.length_cons, List.length_nil, hmark]
  omega

namespace Rewritten

theorem append_left (hu : '$' ∉ u) (h : Rewritten name r r') : Rewritten name (u ++ r) (u ++ r') := by
  induction u with
  | nil => exact h
  | cons c u ih =>
    rw [List.mem_cons, not_or] at hu
    exact .byte (fun hhere => hu.1 (dollar_of_usedHere hhere).symm) (ih hu.2)

/-- **A line is rewritten in one way.** -/
theorem unique (h : Rewritten name l l') (h' : Rewritten name l r') : l' = r' := by
  induction h generalizing r' with
  | nil =>
    cases h'
    rfl
  | @use r x hends hrest ih =>
    generalize hl : reference name ++ r = l at h'
    cases h' with
    | nil => cases hl
    | use hends' hrest' =>
      obtain rfl := List.append_cancel_left hl
      rw [ih hrest']
    | byte other hrest' => exact absurd ⟨r, hl.symm, hends⟩ other
  | @byte c r x hother hrest ih =>
    generalize hl : c :: r = l at h'
    cases h' with
    | nil => cases hl
    | use hends' hrest' => exact absurd ⟨_, hl, hends'⟩ hother
    | byte other hrest' =>
      obtain ⟨rfl, rfl⟩ := List.cons.inj hl
      rw [ih hrest']

/-- A text without uses is kept. -/
theorem of_not_uses (h : ¬ Uses name l) : Rewritten name l l := by
  induction l with
  | nil => exact .nil
  | cons c r ih =>
    rw [Uses, from_cons_iff, not_or] at h
    exact .byte h.1 (ih h.2)

/-- What is rewritten does not get shorter, and longer if there is a use. -/
theorem length_le (h : Rewritten name l l') : l.length ≤ l'.length ∧ (Uses name l → l.length < l'.length) := by
  induction h with
  | nil => exact ⟨Nat.le_refl 0, fun huses => absurd huses (not_from_nil not_usedHere_nil)⟩
  | use hends hrest ih =>
    rw [List.length_append, List.length_append, length_expression]
    exact ⟨by omega, fun _ => by omega⟩
  | byte hother hrest ih =>
    simp only [List.length_cons, Uses, from_cons_iff]
    refine ⟨by omega, ?_⟩
    rintro (hhere | huses)
    · exact absurd hhere hother
    · have hlt := ih.2 huses
      omega

/-- **A line is kept as it is** exactly if it has no use. -/
theorem eq_self_iff (h : Rewritten name l l') : l' = l ↔ ¬ Uses name l := by
  constructor
  · rintro rfl huses
    exact Nat.lt_irrefl _ (h.length_le.2 huses)
  · exact fun hnone => h.unique (of_not_uses hnone)

/-- The first use in a line. -/
theorem first (h : Rewritten name l l') :
    l' = l ∨ ∃ a r r', l = a ++ (reference name ++ r) ∧ l' = a ++ (expression name ++ r') := by
  induction h with
  | nil => exact .inl rfl
  | use hends hrest ih => exact .inr ⟨[], _, _, rfl, rfl⟩
  | @byte c r r' hother hrest ih =>
    rcases ih with rfl | ⟨a, x, x', rfl, rfl⟩
    · exact .inl rfl
    · exact .inr ⟨c :: a, x, x', rfl, rfl⟩

end Rewritten

/-! ## The scanner -/

theorem dollar_not_mem (hname : ∀ x ∈ name, isIdent x = true) : '$' ∉ name := fun hmem => by cases hname '$' hmem

/-- The expressions for the uses that were found. -/
def useEdits (name : Text) (uses : List (Option Span)) : List (Span × Text) :=
  uses.filterMap fun use => use.map fun s => (s, expression name)

/-- **The scanner finds a reference**, and goes on behind it. -/
theorem sweepFrom_reference (name r seen : Text) (pos : Nat) : ∃ seen',
    sweepFrom (lookUse (reference name)) seen pos 0 (reference name ++ r) =
      (if r.head?.any isIdent then none else some ⟨pos, pos + (reference name).length⟩) ::
        sweepFrom (lookUse (reference name)) seen' (pos + (reference name).length) 0 r := by
  have hbegins : startsWith (reference name ++ r) (reference name) = true :=
    List.isPrefixOf_iff_prefix.2 (List.prefix_append _ _)
  have hlook : lookUse (reference name) ⟨seen, pos, '$' :: (name ++ r)⟩ =
      .found (if r.head?.any isIdent then none else some ⟨pos, pos + (reference name).length⟩)
        (reference name).length := by
    show lookUse (reference name) ⟨seen, pos, reference name ++ r⟩ = _
    rw [lookUse, if_pos hbegins]
    simp only [List.drop_left]
  have hwait := sweepFrom_wait (lookUse (reference name)) ⟨'$' :: seen, pos + 1, name ++ r⟩ name.length
  refine ⟨name.reverse ++ '$' :: seen, ?_⟩
  show sweepFrom _ seen pos 0 ('$' :: (name ++ r)) = _
  rw [sweepFrom, if_neg (Nat.lt_irrefl 0), hlook]
  show _ :: sweepFrom _ ('$' :: seen) (pos + 1) name.length (name ++ r) = _
  rw [hwait]
  simp only [Cursor.advance, List.take_left, List.drop_left, reference, List.length_cons]
  rw [Nat.add_assoc, Nat.add_comm 1]

theorem replaceSpan_middle (a u w q : Text) :
    replaceSpan (a ++ (u ++ w)) ⟨a.length, a.length + u.length⟩ q = a ++ (q ++ w) := by
  rw [replaceSpan, List.take_left, List.drop_length_add_append, List.drop_left, List.append_assoc]

/-- **The scanner rewrites what it goes through.** -/
theorem exists_rewritten (hname : ∀ x ∈ name, isIdent x = true) (a seen t : Text) : ∃ t',
    replaceSpans (a ++ t) (useEdits name (sweepFrom (lookUse (reference name)) seen a.length 0 t)) = a ++ t' ∧
      Rewritten name t t' := by
  -- a use is passed over as a whole, so the induction is on the length
  induction hlength : t.length using Nat.strong_induction_on generalizing a seen t with
  | h n ih =>
    cases t with
    | nil => exact ⟨[], rfl, .nil⟩
    | cons c r =>
      by_cases hbegins : startsWith (c :: r) (reference name) = true
      · obtain ⟨w, hw⟩ := List.isPrefixOf_iff_prefix.1 hbegins
        obtain ⟨seen', hsweep⟩ := sweepFrom_reference name w seen a.length
        have hshorter : w.length < n := by
          have hcount := congrArg List.length hw
          rw [List.length_append, reference, List.length_cons] at hcount
          omega
        obtain ⟨w', hput, hrest⟩ := ih _ hshorter (a ++ reference name) seen' w rfl
        rw [List.length_append, List.append_assoc, List.append_assoc] at hput
        rw [← hw, hsweep]
        by_cases hends : NameEnds w
        · rw [NameEnds] at hends
          refine ⟨expression name ++ w', ?_, .use hends hrest⟩
          rw [hends, if_neg Bool.false_ne_true]
          show replaceSpan (replaceSpans (a ++ (reference name ++ w)) (useEdits name _)) ⟨a.length, _⟩
            (expression name) = _
          rw [hput, replaceSpan_middle]
        · -- the name goes on, so none of its bytes begins a use
          have hother : ¬ UsedHere name ('$' :: (name ++ w)) := fun hused => hends (usedHere_reference_iff.1 hused)
          refine ⟨reference name ++ w', ?_, .byte hother (hrest.append_left (dollar_not_mem hname))⟩
          rw [NameEnds, Bool.not_eq_false] at hends
          rw [hends, if_pos rfl]
          exact hput
      · have hnothing : lookUse (reference name) ⟨seen, a.length, c :: r⟩ = .nothing := if_neg hbegins
        have hother : ¬ UsedHere name (c :: r) := by
          rintro ⟨w, hw, -⟩
          exact hbegins (List.isPrefixOf_iff_prefix.2 ⟨w, hw.symm⟩)
        have hshorter : r.length < n := hlength ▸ Nat.lt_succ_self _
        obtain ⟨r', hput, hrest⟩ := ih _ hshorter (a ++ [c]) (c :: seen) r rfl
        rw [List.length_append, List.length_singleton, List.append_assoc, List.append_assoc] at hput
        refine ⟨c :: r', ?_, .byte hother hrest⟩
        rw [sweepFrom, if_neg (Nat.lt_irrefl 0), hnothing]
        exact hput

/-- **The repair of a line rewrites it.** -/
theorem rewritten_replaceVariable (hname : ∀ x ∈ name, isIdent x = true) (l : Text) :
    Rewritten name l (replaceVariable name l) := by
  obtain ⟨l', hput, hl⟩ := exists_rewritten hname [] [] l
  have hsame : replaceVariable name l = l' := hput
  rwa [hsame]

/-! ## What is rewritten -/

/-- The text begins with the dollar sign and the beginning of the name, and behind it stands a use; the rest of the name
is `var`. -/
def RegrowsHere (name t : Text) : Prop :=
  ∃ p r, name = p ++ "var".toList ∧ t = '$' :: (p ++ (reference name ++ r)) ∧ NameEnds r

/-- **The dollar sign and the beginning of the name stand before a use**, and the rest of the name is `var`. -/
def Regrows (name : Text) : Text → Prop := From (RegrowsHere name)

theorem dollar_of_regrowsHere (h : RegrowsHere name (c :: r)) : c = '$' := by
  obtain ⟨p, x, -, hcut, -⟩ := h
  exact (List.cons.inj hcut).1

theorem not_regrowsHere_nil : ¬ RegrowsHere name [] := by
  rintro ⟨p, r, -, hcut, -⟩
  cases hcut

namespace Rewritten

/-- **A line can be cut before a dollar sign**, and both parts are rewritten for themselves. -/
theorem append_dollar (hdollar : '$' ∉ name) (h : Rewritten name u w) (hr : Rewritten name ('$' :: r) r') :
    Rewritten name (u ++ '$' :: r) (w ++ r') := by
  induction h with
  | nil => exact hr
  | use ends rest ih =>
    rw [List.append_assoc, List.append_assoc]
    exact .use (nameEnds_append_dollar.2 ends) ih
  | @byte c u w other rest ih =>
    refine .byte ?_ ih
    rintro ⟨x, hx, hends⟩
    have hcut : (c :: u) ++ '$' :: r = reference name ++ x := hx
    rcases List.append_eq_append_iff.1 hcut with ⟨v, hv, hbehind⟩ | ⟨v, hv, rfl⟩
    · cases v with
      | nil =>
        rw [List.append_nil] at hv
        exact other ⟨[], by rw [hv, List.append_nil], rfl⟩
      | cons y v =>
        -- the reference would go on over the dollar sign
        obtain ⟨rfl, -⟩ := List.cons.inj hbehind
        have hparts : name = u ++ '$' :: v := (List.cons.inj hv).2
        exact hdollar (hparts ▸ List.mem_append_right u List.mem_cons_self)
    · exact other ⟨v, hv, nameEnds_append_dollar.1 hends⟩

/-- A text that begins with a use. -/
theorem use_inv (h : Rewritten name (reference name ++ r) l') (hends : NameEnds r) :
    ∃ r', l' = expression name ++ r' ∧ Rewritten name r r' := by
  generalize hl : reference name ++ r = l at h
  cases h with
  | nil => cases hl
  | use hends' hrest =>
    obtain rfl := List.append_cancel_left hl
    exact ⟨_, rfl, hrest⟩
  | byte other hrest => exact absurd ⟨r, hl.symm, hends⟩ other

/-- A text that begins without a dollar sign. -/
theorem append_left_inv (hu : '$' ∉ u) (h : Rewritten name (u ++ r) l') :
    ∃ r', l' = u ++ r' ∧ Rewritten name r r' := by
  induction u generalizing l' with
  | nil => exact ⟨l', rfl, h⟩
  | cons c u ih =>
    rw [List.mem_cons, not_or] at hu
    generalize hl : c :: u ++ r = l at h
    cases h with
    | nil => cases hl
    | use hends hrest => exact absurd (List.cons.inj hl).1.symm hu.1
    | byte other hrest =>
      obtain ⟨rfl, rfl⟩ := List.cons.inj hl
      obtain ⟨r', rfl, hr⟩ := ih hu.2 hrest
      exact ⟨r', rfl, hr⟩

/-- **Where the bytes of a word come from**: they are kept, or an expression begins in the middle of them. -/
theorem word_inv (h : Rewritten name l (u ++ r')) : (∃ r, l = u ++ r ∧ Rewritten name r r') ∨
    ∃ p v r x, u = p ++ v ∧ l = p ++ (reference name ++ r) ∧ NameEnds r ∧ v ++ r' = expression name ++ x := by
  induction u generalizing l with
  | nil => exact .inl ⟨l, rfl, h⟩
  | cons c u ih =>
    generalize hl' : c :: u ++ r' = l' at h
    cases h with
    | nil => cases hl'
    | @use r x hends hrest => exact .inr ⟨[], c :: u, r, x, rfl, rfl, hends, hl'⟩
    | @byte c' r x hother hrest =>
      obtain ⟨rfl, rfl⟩ := List.cons.inj hl'
      rcases ih hrest with ⟨y, rfl, hy⟩ | ⟨p, v, y, x, rfl, rfl, hends, hcut⟩
      · exact .inl ⟨y, rfl, hy⟩
      · exact .inr ⟨c :: p, v, y, x, rfl, rfl, hends, hcut⟩

/-- A name that goes on goes on afterwards. -/
theorem not_nameEnds (h : Rewritten name r r') (hkept : ¬ NameEnds r) : ¬ NameEnds r' := by
  cases h with
  | nil => exact hkept
  | use hends hrest => exact absurd rfl hkept
  | byte other hrest => exact hkept

end Rewritten

theorem takeWhile_of_nameEnds (hu : ∀ x ∈ u, isIdent x = true) (hends : NameEnds r) :
    (u ++ r).takeWhile isIdent = u := by
  apply takeWhile_stretch hu
  intro x hx
  rwa [NameEnds, hx] at hends

/-- The name at the beginning of an expression. -/
theorem takeWhile_expression (name r : Text) : (expression name ++ r).takeWhile isIdent = "var".toList := by
  have hcut : expression name ++ r = "var".toList ++ '(' :: ("--".toList ++ name ++ [')'] ++ r) := rfl
  rw [hcut]
  exact takeWhile_of_nameEnds (List.all_eq_true.1 rfl) rfl

theorem dollar_not_mem_expression (hname : ∀ x ∈ name, isIdent x = true) : '$' ∉ expression name := by
  rw [expression, List.mem_append, List.mem_append]
  rintro ((hmark | hmem) | hparen)
  · revert hmark
    decide
  · exact dollar_not_mem hname hmem
  · revert hparen
    decide

/-- **A use comes about at a byte** that was none exactly if the variable regrows there. -/
theorem usedHere_rewritten_iff (hname : ∀ x ∈ name, isIdent x = true) (hother : ¬ UsedHere name (c :: r))
    (h : Rewritten name r r') : UsedHere name (c :: r') ↔ RegrowsHere name (c :: r) := by
  constructor
  · rintro ⟨w, hcut, hends⟩
    obtain ⟨rfl, rfl⟩ := List.cons.inj hcut
    rcases h.word_inv with ⟨x, rfl, hx⟩ | ⟨p, v, x, y, hparts, rfl, hx, hv⟩
    · -- the whole name was there, so it went on
      have hkept : ¬ NameEnds x := fun hx => hother ⟨x, rfl, hx⟩
      exact absurd hends (hx.not_nameEnds hkept)
    · have hident : ∀ z ∈ v, isIdent z = true := fun z hz => hname z (hparts ▸ List.mem_append_right p hz)
      have hvar : v = "var".toList := by
        rw [← takeWhile_of_nameEnds hident hends, hv, takeWhile_expression]
      exact ⟨p, x, hvar ▸ hparts, rfl, hx⟩
  · rintro ⟨p, x, hparts, hcut, hends⟩
    obtain ⟨rfl, rfl⟩ := List.cons.inj hcut
    have hdollar : '$' ∉ p := fun hmem => dollar_not_mem hname (hparts ▸ List.mem_append_left _ hmem)
    obtain ⟨y, rfl, hy⟩ := h.append_left_inv hdollar
    obtain ⟨z, rfl, -⟩ := hy.use_inv hends
    have hword : expression name ++ z = "var".toList ++ '(' :: ("--".toList ++ name ++ [')'] ++ z) := rfl
    refine ⟨'(' :: ("--".toList ++ name ++ [')'] ++ z), ?_, rfl⟩
    rw [hword, ← List.append_assoc, ← hparts]
    rfl

/-- **What is rewritten shows a use** exactly if the variable regrows. -/
theorem uses_rewritten_iff (hname : ∀ x ∈ name, isIdent x = true) (h : Rewritten name l l') :
    Uses name l' ↔ Regrows name l := by
  induction h with
  | nil => exact iff_of_false (not_from_nil not_usedHere_nil) (not_from_nil not_regrowsHere_nil)
  | @use r r' hends hrest ih =>
    have hhere : ¬ RegrowsHere name ('$' :: (name ++ r)) := by
      rintro ⟨p, x, hparts, hcut, -⟩
      have hnext := (List.cons.inj hcut).2
      rw [hparts, List.append_assoc] at hnext
      have hbyte := List.append_cancel_left hnext
      cases hbyte
    rw [Uses, from_append_iff dollar_of_usedHere (dollar_not_mem_expression hname), ← Uses, ih, reference,
      List.cons_append, Regrows, from_cons_iff, from_append_iff dollar_of_regrowsHere (dollar_not_mem hname)]
    exact (or_iff_right hhere).symm
  | byte hother hrest ih =>
    rw [Uses, from_cons_iff, ← Uses, Regrows, from_cons_iff, ← Regrows, ih, usedHere_rewritten_iff hname hother hrest]

/-! ## Lines that are left alone -/

/-- The lines in which the repair leaves the uses of the variable: no repair touches them, or they begin with a
declaration of it. -/
def LeftAlone (name l : Text) : Bool := isProtected l || startsWith (trim l) (reference name ++ [':'])

theorem isWord_declared (hname : ∀ x ∈ name, isIdent x = true) : IsWord (reference name ++ [':']) := by
  intro c hc
  rw [reference, List.mem_append, List.mem_cons, List.mem_singleton] at hc
  rcases hc with (rfl | hc) | rfl
  · rfl
  · exact not_isBlank_of_isIdent (hname c hc)
  · rfl

/-- A declaration of the variable does not go on in an expression for it, which has no colon behind its first name. -/
theorem startsWith_of_expression (hname : ∀ x ∈ name, isIdent x = true)
    (h : startsWith (u ++ (expression name ++ r)) (reference name ++ [':']) = true) :
    startsWith u (reference name ++ [':']) = true := by
  cases u with
  | nil => cases h
  | cons y u =>
    by_contra hshort
    obtain ⟨v, hv, hsplit, w, hw⟩ := exists_rest_of_startsWith h (Bool.eq_false_iff.2 hshort)
    obtain ⟨q, z, rfl⟩ := (List.eq_nil_or_concat v).resolve_left hv
    rw [List.concat_eq_append] at hsplit hw
    obtain ⟨hreference, hcolon⟩ := List.append_inj' ((List.append_assoc _ q _).trans hsplit) rfl
    obtain ⟨rfl, -⟩ := List.cons.inj hcolon
    have hident : ∀ c ∈ q, isIdent c = true := fun c hc =>
      hname c ((List.cons.inj hreference).2 ▸ List.mem_append_right u hc)
    rw [List.append_assoc] at hw
    have hends : NameEnds (':' :: w) := rfl
    have hvar : q = "var".toList := by
      rw [← takeWhile_of_nameEnds hident hends, ← takeWhile_expression name r]
      exact congrArg _ hw
    rw [hvar] at hw
    have hparen : ':' :: w = '(' :: ("--".toList ++ name ++ [')'] ++ r) := List.append_cancel_left hw
    cases hparen

/-- **Another line is not left alone** when it has been rewritten. -/
theorem leftAlone_rewritten (hname : ∀ x ∈ name, isIdent x = true) (h : Rewritten name l l')
    (hl : LeftAlone name l = false) : LeftAlone name l' = false := by
  rcases h.first with rfl | ⟨a, r, r', rfl, rfl⟩
  · exact hl
  · rw [LeftAlone, Bool.or_eq_false_iff, startsWith_trim (isWord_declared hname), Bool.eq_false_iff,
      Bool.eq_false_iff] at hl ⊢
    obtain ⟨htouched, hdeclares⟩ := hl
    refine ⟨?_, ?_⟩
    · rw [expression_eq, List.cons_append, ne_eq, isProtected_append_cons (Bool.eq_false_iff.2 htouched) rfl]
      rintro (⟨-, hmarked⟩ | ⟨-, hslash⟩)
      · obtain ⟨x, hx⟩ := exists_of_marked hmarked
        cases hx
      · revert hslash
        decide
    · intro hbegins
      have hcut : trimLeft (a ++ (reference name ++ r)) = trimLeft a ++ (reference name ++ r) :=
        trimLeft_append_cons rfl a _
      have hcut' : trimLeft (a ++ (expression name ++ r')) = trimLeft a ++ (expression name ++ r') :=
        trimLeft_append_cons rfl a _
      rw [hcut'] at hbegins
      rw [hcut, startsWith, ne_eq, List.isPrefixOf_iff_prefix] at hdeclares
      have hshort := List.isPrefixOf_iff_prefix.1 (startsWith_of_expression hname hbegins)
      exact hdeclares (hshort.trans (List.prefix_append _ _))

/-- The line after the repair. -/
def renewed (name l : Text) : Text := if LeftAlone name l then l else replaceVariable name l

/-- **The repair of a line once more** changes it exactly if the variable regrows in it. -/
theorem renewed_renewed_iff (hname : ∀ x ∈ name, isIdent x = true) :
    renewed name (renewed name l) = renewed name l ↔ (LeftAlone name l = false → ¬ Regrows name l) := by
  cases halone : LeftAlone name l with
  | true =>
    have hsame : renewed name l = l := if_pos halone
    rw [hsame, hsame]
    exact iff_of_true rfl nofun
  | false =>
    have hfirst := rewritten_replaceVariable hname l
    have hsecond := rewritten_replaceVariable hname (replaceVariable name l)
    have honce : renewed name l = replaceVariable name l := by rw [renewed, halone, if_neg Bool.false_ne_true]
    have htwice : renewed name (replaceVariable name l) = replaceVariable name (replaceVariable name l) := by
      rw [renewed, leftAlone_rewritten hname hfirst halone, if_neg Bool.false_ne_true]
    rw [honce, htwice, hsecond.eq_self_iff, uses_rewritten_iff hname hfirst]
    exact ⟨fun hnot _ => hnot, fun hnot => hnot rfl⟩

/-! ## Files -/

/-- The number of lines that differ. -/
def differences (ls ls' : List Text) : Nat := (ls.zip ls').countP fun p => p.1 ≠ p.2

theorem differences_self (ls : List Text) : differences ls ls = 0 := by
  induction ls with
  | nil => rfl
  | cons l ls ih =>
    rw [differences] at ih
    rw [differences, List.zip_cons_cons, List.countP_cons, ih]
    simp

theorem differences_eq_zero_iff {f : Text → Text} {ls : List Text} :
    differences ls (ls.map f) = 0 ↔ ls.map f = ls := by
  induction ls with
  | nil => exact iff_of_true rfl rfl
  | cons l ls ih =>
    rw [differences] at ih
    rw [differences, List.map_cons, List.zip_cons_cons, List.countP_cons, Nat.add_eq_zero_iff, ih, List.cons.injEq,
      and_comm]
    by_cases hsame : f l = l
    · simp [hsame]
    · simp [hsame, Ne.symm hsame]

/-- **A repair that takes no statement out of use** goes through the lines one by one, and an edit is made of each
line that it changes. -/
theorem repairLines_of_each {decide : Nat → Text → LineRepair} {f : Text → Text}
    (h : ∀ n l, ∃ reason, repairLine decide none n l = (f l, reason, none)) (n : Nat) (ls : List Text) :
    (repairLines decide none n ls).1 = ls.map f ∧
      (repairLines decide none n ls).2.length = differences ls (ls.map f) := by
  induction ls generalizing n with
  | nil => exact ⟨rfl, rfl⟩
  | cons l ls ih =>
    obtain ⟨reason, hline⟩ := h n l
    obtain ⟨hlines, hedits⟩ := ih (n + 1)
    rw [repairLines, hline]
    dsimp only
    refine ⟨congrArg _ hlines, ?_⟩
    rw [differences] at hedits ⊢
    rw [List.map_cons, List.zip_cons_cons, List.countP_cons, ← hedits]
    by_cases hsame : f l = l
    · simp [hsame]
    · simp [hsame, Ne.symm hsame]

/-- The file after the repair. -/
def renewedFile (name : Text) (c : Candidate) : Candidate :=
  { c with
    lines := c.lines.map (renewed name), dirty := c.dirty || decide (c.lines.map (renewed name) ≠ c.lines) }

/-- **The repair of a file** renews its lines, and puts those that differ on record. -/
theorem fixVariable_spec (name : Text) (c : Candidate) : (fixVariable name c).1 = renewedFile name c ∧
    (fixVariable name c).2.length = differences c.lines (renewedFile name c).lines := by
  let reason := "undefined variable ".toList ++ reference name ++ " -> var(--".toList ++ name ++ ")".toList
  let decision (_ : Nat) (l : Text) : LineRepair :=
    if LeftAlone name l then .keep else .replace (replaceVariable name l) reason
  have hline : ∀ n l, ∃ why, repairLine decision none n l = (renewed name l, why, none) := by
    intro n l
    rw [repairLine, renewed]
    dsimp only [decision]
    cases LeftAlone name l with
    | true => exact ⟨_, rfl⟩
    | false => exact ⟨_, rfl⟩
  have hfix : fixVariable name c =
      c.edited (repairLines decision none 1 c.lines).1 (repairLines decision none 1 c.lines).2 := rfl
  obtain ⟨hlines, hedits⟩ := repairLines_of_each hline 1 c.lines
  have hempty : (repairLines decision none 1 c.lines).2.isEmpty = true ↔ c.lines.map (renewed name) = c.lines := by
    rw [List.isEmpty_iff, ← List.length_eq_zero_iff, hedits, differences_eq_zero_iff]
  rw [hfix, hlines]
  refine ⟨?_, (List.length_map _).trans hedits⟩
  rw [Candidate.edited, renewedFile, Bool.eq_iff_iff.2 (hempty.trans decide_eq_true_iff.symm), decide_not]

/-- A file is left as it is exactly if each of its lines is. -/
theorem renewedFile_eq_self_iff {c : Candidate} : renewedFile name c = c ↔ ∀ l ∈ c.lines, renewed name l = l := by
  constructor
  · intro hsame
    have hlines : c.lines.map (renewed name) = c.lines := congrArg Candidate.lines hsame
    exact List.map_inj_left.1 (hlines.trans (List.map_id c.lines).symm)
  · intro hsame
    have hlines : c.lines.map (renewed name) = c.lines := by
      rw [List.map_congr_left hsame, List.map_id']
    simp [renewedFile, hlines]

/-- **The repair of an undefined variable** goes through the files in scope. -/
theorem fix_variable (hkind : e.kind = .undefinedVariable) (hne : e.name ≠ []) (files : List Candidate) :
    fix e files = onFiles (InScope e files) (fixVariable e.name) files := by
  have hempty : e.name.isEmpty = false := by rwa [List.isEmpty_eq_false_iff]
  simp only [fix]
  generalize hline : (if files.any (names e) || files.length = 1 then e else { e with line := none }) = e'
  have hkept : e'.kind = e.kind ∧ e'.name = e.name := by
    rw [← hline]
    split <;> exact ⟨rfl, rfl⟩
  rw [hkept.1, hkept.2, hkind, hempty]
  rfl

/-- The file after the repair of the error. -/
def renewedIn (e : CompileError) (files : List Candidate) (c : Candidate) : Candidate :=
  if InScope e files c then renewedFile e.name c else c

theorem inScope_renewedIn (e : CompileError) (files : List Candidate) (c : Candidate) :
    InScope e (files.map (renewedIn e files)) (renewedIn e files c) = InScope e files c := by
  apply inScope_map
  intro d
  unfold renewedIn
  split <;> rfl

/-- The repair file by file: what becomes of each, and how many lines of it differ. -/
theorem fix_variable_spec (hkind : e.kind = .undefinedVariable) (hne : e.name ≠ []) (files : List Candidate) :
    (fix e files).1 = files.map (renewedIn e files) ∧
      (fix e files).2.length = (files.map fun c => differences c.lines (renewedIn e files c).lines).sum := by
  rw [fix_variable hkind hne, onFiles_eq]
  refine ⟨?_, ?_⟩
  · apply List.map_congr_left
    intro c _
    rw [(fixVariable_spec e.name c).1]
    rfl
  · rw [List.length_flatMap]
    congr 1
    apply List.map_congr_left
    intro c _
    rw [renewedIn]
    split
    · exact (fixVariable_spec e.name c).2
    · exact (differences_self c.lines).symm

/-- **The same error once more** changes nothing exactly if the variable regrows in no line. -/
theorem fix_variable_again_iff (hkind : e.kind = .undefinedVariable) (hne : e.name ≠ [])
    (hident : ∀ x ∈ e.name, isIdent x = true) (files : List Candidate) :
    fix e (fix e files).1 = ((fix e files).1, []) ↔ ∀ c ∈ files, InScope e files c = true →
      ∀ l ∈ c.lines, LeftAlone e.name l = false → ¬ Regrows e.name l := by
  have hfirst := (fix_variable_spec hkind hne files).1
  obtain ⟨hsecond, hcount⟩ := fix_variable_spec hkind hne (fix e files).1
  -- the files that are changed a second time are those in scope with such a line
  have hfile : ∀ c, renewedIn e (fix e files).1 (renewedIn e files c) = renewedIn e files c ↔
      (InScope e files c = true → ∀ l ∈ c.lines, LeftAlone e.name l = false → ¬ Regrows e.name l) := by
    intro c
    rw [hfirst, renewedIn, inScope_renewedIn]
    by_cases hscope : InScope e files c = true
    · rw [if_pos hscope, renewedIn, if_pos hscope, renewedFile_eq_self_iff]
      simp only [renewedFile, List.forall_mem_map, renewed_renewed_iff hident, hscope, true_imp_iff]
    · rw [if_neg hscope]
      exact iff_of_true rfl fun hin => absurd hin hscope
  simp only [← hfile]
  rw [Prod.ext_iff, hsecond]
  constructor
  · rintro ⟨hsame, -⟩ c hc
    dsimp only at hsame
    have hmem : renewedIn e files c ∈ (fix e files).1 := hfirst ▸ List.mem_map_of_mem hc
    exact List.map_inj_left.1 (hsame.trans (List.map_id _).symm) _ hmem
  · intro hsame
    have hkept : ∀ c' ∈ (fix e files).1, renewedIn e (fix e files).1 c' = c' := by
      intro c' hc'
      rw [hfirst] at hc'
      obtain ⟨c, hc, rfl⟩ := List.mem_map.1 hc'
      exact hsame c hc
    refine ⟨by rw [List.map_congr_left hkept, List.map_id'], ?_⟩
    rw [← List.length_eq_zero_iff, hcount]
    rw [List.sum_eq_zero_iff_forall_eq_nat]
    intro n hn
    obtain ⟨c', hc', rfl⟩ := List.mem_map.1 hn
    rw [hkept c' hc', differences_self]

/-- **The repair of an undefined variable is exact.** In the files in scope, a line that is blank or starts with a
comment or with a declaration of the variable stays; any other line is read from left to right, and an expression is
written for each use of the variable and the other bytes are kept. The other files stay. The alterations are as many as
the lines that differ. The same error once more changes nothing exactly if on no line of the second kind `$` and a
beginning of the name stand right before a use, with `var` as the rest of the name. -/
theorem variable_repair_exact (e : CompileError) (files : List Candidate) (hkind : e.kind = .undefinedVariable)
    (hne : e.name ≠ []) (hident : ∀ x ∈ e.name, isIdent x = true) :
    List.Forall₂ (fun c c' =>
        if InScope e files c then
          c' = { c with lines := c'.lines, dirty := c.dirty || decide (c'.lines ≠ c.lines) } ∧
          List.Forall₂ (fun l l' => if LeftAlone e.name l then l' = l else Rewritten e.name l l') c.lines c'.lines
        else c' = c) files (fix e files).1 ∧
    (fix e files).2.length =
      (List.zipWith (fun c c' => differences c.lines c'.lines) files (fix e files).1).sum ∧
    (fix e (fix e files).1 = ((fix e files).1, []) ↔ ∀ c ∈ files, InScope e files c = true →
      ∀ l ∈ c.lines, LeftAlone e.name l = false → ¬ Regrows e.name l) := by
  obtain ⟨hfiles, hcount⟩ := fix_variable_spec hkind hne files
  refine ⟨?_, ?_, fix_variable_again_iff hkind hne hident files⟩
  · rw [hfiles, List.forall₂_map_right_iff, List.forall₂_same]
    intro c _
    rw [renewedIn]
    split
    · refine ⟨rfl, ?_⟩
      rw [renewedFile, List.forall₂_map_right_iff, List.forall₂_same]
      intro l _
      rw [renewed]
      split
      · rfl
      · exact rewritten_replaceVariable hident l
    · rfl
  · rw [hcount, hfiles, List.zipWith_map_right, List.zipWith_self]

/-- The error about a variable in a file. -/
def brandError : CompileError :=
  { kind := .undefinedVariable, name := "brand".toList, file := some "home.scss".toList }

/-- A file that declares the variable, and uses it and one whose name begins with its name. -/
def homeFile : Candidate :=
  ⟨"home.scss".toList, "home.scss".toList, "home.css".toList, [],
    ["$brand: red; // $brand".toList, "// $brand".toList, "a: $brand $brand-dark $brand;".toList], false⟩

/-- Another file that uses it. -/
def cardFile : Candidate :=
  ⟨"card.scss".toList, "card.scss".toList, "card.css".toList, [], ["b: $brand;".toList], false⟩

theorem homeFile_renewed :
    InScope brandError [homeFile, cardFile] homeFile = true ∧ InScope brandError [homeFile, cardFile] cardFile = false ∧
    (fix brandError [homeFile, cardFile]).1 =
      [{ homeFile with
          lines := ["$brand: red; // $brand".toList, "// $brand".toList,
            "a: var(--brand) $brand-dark var(--brand);".toList],
          dirty := true }, cardFile] ∧
    (fix brandError [homeFile, cardFile]).2.length = 1 ∧
    fix brandError (fix brandError [homeFile, cardFile]).1 = ((fix brandError [homeFile, cardFile]).1, []) := by
  have hident : ∀ x ∈ brandError.name, isIdent x = true := List.all_eq_true.1 rfl
  obtain ⟨-, hcount, hagain⟩ := variable_repair_exact brandError [homeFile, cardFile] rfl (by decide +kernel) hident
  have hfirst : (fix brandError [homeFile, cardFile]).1 =
      [{ homeFile with
          lines := ["$brand: red; // $brand".toList, "// $brand".toList,
            "a: var(--brand) $brand-dark var(--brand);".toList],
          dirty := true }, cardFile] := by decide +kernel
  refine ⟨by decide +kernel, by decide +kernel, hfirst, ?_, hagain.2 ?_⟩
  · rw [hcount, hfirst]
    decide +kernel
  · rintro c - - l - - ⟨a, r, -, p, x, hparts, -⟩
    -- the name does not end in the mark of an expression
    have hends : brandError.name.reverse = 'r' :: 'a' :: 'v' :: p.reverse := by
      rw [hparts]
      simp
    cases hends

/-- The error about a variable whose name ends in `var`. -/
def avarError : CompileError := { kind := .undefinedVariable, name := "avar".toList }

/-- A file with a use of it behind its beginning. -/
def avarFile : Candidate :=
  ⟨"a.scss".toList, "a.scss".toList, "a.css".toList, [], ["x: $a$avar;".toList], false⟩

/-- **What is rewritten can be a use with what stands before it**, without two dollar signs side by side. -/
theorem rewritten_again :
    (∀ l ∈ avarFile.lines, ¬ "$$".toList <:+: l) ∧
    (fix avarError [avarFile]).1.map (·.lines) = [["x: $avar(--avar);".toList]] ∧
    (fix avarError (fix avarError [avarFile]).1).1.map (·.lines) = [["x: var(--avar)(--avar);".toList]] ∧
    fix avarError (fix avarError [avarFile]).1 ≠ ((fix avarError [avarFile]).1, []) := by
  decide +kernel

end Flatsheet.Repair
