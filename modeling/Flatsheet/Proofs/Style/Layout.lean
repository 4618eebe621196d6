import Flatsheet.Conversion.Pass
import Flatsheet.Proofs.Text.Loss
import Mathlib.Logic.Relation

/-!
# `Proofs.Style.Layout` — tidying takes away single blanks

Tidying goes through the lines of a text, but what it does can be said a byte at a time: it takes away
blanks, each at a place where nothing of the style sheet can depend on it (`Tightens`). So what a text keeps
when it loses one such blank it keeps when it is tidied (`reaches_clean`, `Reaches.eq_of_loses`).

Where there is no such blank left the text is `Tidy`. A tidied text is tidy, and tidying leaves a tidy text
alone, so tidying once is enough (`clean_clean`). The tidy texts are those of a layout that can be said of their
lines (`LaidOut`), so this layout is a normal form (`clean_normal_form`).
-/

namespace Flatsheet.Style

open Text Relation

variable {t t' : Text} {ls : List Text}

/-! ## One blank less -/

/-- **A text loses a blank that tidying takes away**: one at the end of a line, the second of two empty
lines, or one at either end of the text. -/
inductive Tightens : Text → Text → Prop
  | lineEnd (a : Text) {x : Char} (b : Text) (blank : isBlank x = true) (stays : x ≠ '\n') :
      Tightens (a ++ x :: '\n' :: b) (a ++ '\n' :: b)
  | emptyLine (a b : Text) (begun : a = [] ∨ ∃ a', a = a' ++ ['\n']) :
      Tightens (a ++ '\n' :: '\n' :: b) (a ++ '\n' :: b)
  | start {x : Char} (b : Text) (blank : isBlank x = true) : Tightens (x :: b) b
  | stop (a : Text) {x : Char} (blank : isBlank x = true) : Tightens (a ++ [x]) a

/-- The text comes to be another one by losing blanks. -/
abbrev Reaches : Text → Text → Prop := ReflTransGen Tightens

theorem reaches_trimLeft (t : Text) : Reaches t (trimLeft t) := by
  induction t with
  | nil => exact .refl
  | cons c r ih =>
    rw [trimLeft, List.dropWhile_cons]
    split
    · next hblank => exact .head (.start r hblank) ih
    · exact .refl

theorem reaches_drop_blanks (a : Text) {blanks : Text} (h : ∀ c ∈ blanks, isBlank c = true) :
    Reaches (a ++ blanks) a := by
  induction blanks generalizing a with
  | nil => rw [List.append_nil]
  | cons c blanks ih =>
    have hrest := ih (a ++ [c]) fun d hd => h d (List.mem_cons_of_mem c hd)
    rw [List.append_assoc, List.singleton_append] at hrest
    exact hrest.tail (.stop a (h c List.mem_cons_self))

theorem reaches_trimRight (a t : Text) : Reaches (a ++ t) (a ++ trimRight t) := by
  obtain ⟨blanks, ht, hblanks⟩ := eq_trimRight_append t
  have hdrop := reaches_drop_blanks (a ++ trimRight t) hblanks
  rw [List.append_assoc, ← ht] at hdrop
  exact hdrop

theorem reaches_trim (t : Text) : Reaches t (trim t) :=
  (reaches_trimLeft t).trans (reaches_trimRight [] (trimLeft t))

/-- The blanks at the end of a line go. -/
theorem reaches_lineEnd (a b : Text) {blanks : Text} (h : ∀ c ∈ blanks, isBlank c = true)
    (hline : '\n' ∉ blanks) : Reaches (a ++ blanks ++ '\n' :: b) (a ++ '\n' :: b) := by
  induction blanks generalizing a with
  | nil => rw [List.append_nil]
  | cons c blanks ih =>
    simp only [List.mem_cons, not_or] at hline
    have hrest := ih (a ++ [c]) (fun d hd => h d (List.mem_cons_of_mem c hd)) hline.2
    simp only [List.append_assoc, List.singleton_append] at hrest ⊢
    exact hrest.tail (.lineEnd a b (h c List.mem_cons_self) (Ne.symm hline.1))

/-- **The lines are trimmed**, one after the other. -/
theorem reaches_trimmed (a : Text) (h : ∀ l ∈ ls, '\n' ∉ l) :
    Reaches (a ++ unlines ls) (a ++ unlines (ls.map trimRight)) := by
  induction ls generalizing a with
  | nil => exact .refl
  | cons l ls ih =>
    by_cases hnone : ls = []
    · rw [hnone]
      exact reaches_trimRight a l
    · have hmap : ls.map trimRight ≠ [] := by simpa using hnone
      obtain ⟨blanks, hl, hblanks⟩ := eq_trimRight_append l
      have hnot : '\n' ∉ blanks := by
        have hmem := h l List.mem_cons_self
        rw [hl, List.mem_append, not_or] at hmem
        exact hmem.2
      have hfirst := reaches_lineEnd (a ++ trimRight l) (unlines ls) hblanks hnot
      have hothers := ih (a ++ trimRight l ++ ['\n']) fun m hm => h m (List.mem_cons_of_mem l hm)
      rw [List.append_assoc a, ← hl] at hfirst
      rw [List.map_cons, unlines_cons l hnone, unlines_cons _ hmap]
      simp only [List.append_assoc, List.singleton_append] at hfirst hothers ⊢
      exact hfirst.trans hothers

/-- **Repeated empty lines go**, given the line before the others. -/
theorem reaches_squeezed (a l : Text) (begun : a = [] ∨ ∃ a', a = a' ++ ['\n']) :
    Reaches (a ++ unlines (l :: ls)) (a ++ unlines (l :: squeezeFrom l.isEmpty ls)) := by
  induction ls generalizing a l with
  | nil => exact .refl
  | cons m ls ih =>
    rw [squeezeFrom]
    split
    · next hempty =>
      simp only [Bool.and_eq_true, List.isEmpty_iff] at hempty
      obtain ⟨rfl, rfl⟩ := hempty
      refine .head ?_ (ih a [] begun)
      -- the line that goes is the last one, or another line feed follows
      cases ls with
      | nil =>
        have hrest : a ++ unlines [[]] = a := List.append_nil a
        rw [hrest]
        exact Tightens.stop a (x := '\n') rfl
      | cons n ls => exact Tightens.emptyLine a (unlines (n :: ls)) begun
    · have hothers := ih (a ++ l ++ ['\n']) m (.inr ⟨_, rfl⟩)
      rw [unlines_cons l (List.cons_ne_nil m _), unlines_cons l (List.cons_ne_nil m _)]
      simp only [List.append_assoc, List.singleton_append] at hothers
      exact hothers

/-- **Tidying takes away single blanks.** -/
theorem reaches_clean (t : Text) : Reaches t (clean t) := by
  have htrimmed := reaches_trimmed [] fun l (hl : l ∈ lines t) => not_mem_of_mem_splitOn hl
  have hsqueezed : Reaches (unlines ((lines t).map trimRight))
      (unlines (squeezeFrom false ((lines t).map trimRight))) := by
    cases (lines t).map trimRight with
    | nil => exact .refl
    | cons l ls =>
      rw [squeezeFrom, Bool.and_false, if_neg Bool.false_ne_true]
      exact reaches_squeezed [] l (.inl rfl)
  simp only [List.nil_append, unlines_lines] at htrimmed
  exact (htrimmed.trans hsqueezed).trans (reaches_trim _)

/-- Each such blank stands at the margin of its line. -/
theorem Tightens.loses (h : Tightens t t') : ∃ n, Loses n t t' := by
  cases h with
  | lineEnd a b blank stays => exact ⟨_, .intro rfl blank (.inr (.inr ⟨b, rfl⟩))⟩
  | emptyLine a b begun => exact ⟨_, .intro rfl rfl (.inr (.inr ⟨b, rfl⟩))⟩
  | start b blank => exact ⟨0, .intro (a := []) rfl blank (.inl rfl)⟩
  | stop a blank => exact ⟨_, .stop rfl blank⟩

/-- **What outlives the loss of one blank outlives the loss of several.** -/
theorem Reaches.eq_of_loses {β : Type*} {f : Text → β} (hf : ∀ {n t t'}, Loses n t t' → f t' = f t)
    (h : Reaches t t') : f t' = f t := by
  induction h with
  | refl => rfl
  | tail _ hstep ih =>
    obtain ⟨n, hloss⟩ := hstep.loses
    exact (hf hloss).trans ih

/-! ## Tidy texts -/

/-- **No blank is left that tidying would take away.** -/
structure Tidy (t : Text) : Prop where
  lineEnds : ∀ a x b, t = a ++ x :: '\n' :: b → isBlank x = true → x = '\n'
  gaps : ∀ a b, t ≠ a ++ '\n' :: '\n' :: '\n' :: b
  start : ∀ x b, t = x :: b → isBlank x = false
  stop : ∀ a x, t = a ++ [x] → isBlank x = false

theorem Tidy.not_tightens (h : Tidy t) : ¬ Tightens t t' := by
  intro hstep
  cases hstep with
  | lineEnd a b blank stays => exact stays (h.lineEnds a _ b rfl blank)
  | emptyLine a b begun =>
    rcases begun with rfl | ⟨a', rfl⟩
    · exact absurd (h.start _ _ rfl) (by decide)
    · exact h.gaps a' b (by simp)
  | start b blank => simp [h.start _ _ rfl] at blank
  | stop a blank => simp [h.stop _ _ rfl] at blank

/-- **Tidying leaves a tidy text alone.** -/
theorem Tidy.clean_eq (h : Tidy t) : clean t = t := by
  rcases (reaches_clean t).cases_head with heq | ⟨t', hstep, -⟩
  · exact heq.symm
  · exact absurd hstep h.not_tightens

theorem mem_squeezeFrom {l : Text} {afterEmpty : Bool} (h : l ∈ squeezeFrom afterEmpty ls) : l ∈ ls := by
  induction ls generalizing afterEmpty with
  | nil => exact h
  | cons m ls ih =>
    rw [squeezeFrom] at h
    split at h
    · exact List.mem_cons_of_mem m (ih h)
    · rcases List.mem_cons.1 h with rfl | h
      · exact List.mem_cons_self
      · exact List.mem_cons_of_mem m (ih h)

/-- No empty line follows an empty line. -/
def Spaced (ls : List Text) : Prop := ∀ front back, ls ≠ front ++ [] :: [] :: back

theorem squeezeFrom_true_head (ls back : List Text) : squeezeFrom true ls ≠ [] :: back := by
  induction ls with
  | nil => simp [squeezeFrom]
  | cons l ls ih =>
    rw [squeezeFrom]
    split
    · exact ih
    · next hl =>
      intro h
      rw [(List.cons.inj h).1] at hl
      exact hl rfl

theorem spaced_squeezeFrom (afterEmpty : Bool) (ls : List Text) : Spaced (squeezeFrom afterEmpty ls) := by
  induction ls generalizing afterEmpty with
  | nil =>
    intro front back h
    simp [squeezeFrom] at h
  | cons l ls ih =>
    rw [squeezeFrom]
    split
    · exact ih true
    · intro front back h
      cases front with
      | nil =>
        obtain ⟨rfl, hback⟩ := List.cons.inj h
        exact squeezeFrom_true_head ls back hback
      | cons m front => exact ih _ front back (List.cons.inj h).2

/-- A text of trimmed lines, no two of which in a row are empty, is tidy once it is trimmed. -/
theorem tidy_of_lines (hlines : ∀ l ∈ lines t, trimRight l = l) (hspaced : Spaced (lines t)) :
    Tidy (trim t) := by
  have hright : ∃ blanks, trimLeft t = trim t ++ blanks := by
    obtain ⟨blanks, ht, -⟩ := eq_trimRight_append (trimLeft t)
    exact ⟨blanks, ht⟩
  have hinside : ∃ front back, t = front ++ (trim t ++ back) := by
    obtain ⟨front, ht, -⟩ := eq_append_trimLeft t
    obtain ⟨back, hback⟩ := hright
    exact ⟨front, back, by rw [← hback, ← ht]⟩
  obtain ⟨front, back, ht⟩ := hinside
  have hparts : ∀ a b, trim t = a ++ '\n' :: b →
      lines t = lines (front ++ a) ++ lines (b ++ back) := by
    intro a b h
    have hcut : t = (front ++ a) ++ '\n' :: (b ++ back) := by
      rw [ht, h]
      simp
    conv => lhs; rw [hcut]
    exact splitOn_append_cons '\n' (front ++ a) (b ++ back)
  refine ⟨?_, ?_, ?_, ?_⟩
  · intro a x b h hblank
    apply Classical.byContradiction
    intro hx
    -- the blank is the last byte of a line of `t`, which is trimmed
    obtain ⟨ps, p, -, hlast⟩ := splitOn_concat_of_ne hx (front ++ a)
    have hline : p ++ [x] ∈ lines t := by
      rw [hparts (a ++ [x]) b (by rw [h]; simp), ← List.append_assoc, lines, hlast]
      simp
    rw [not_blank_of_trimRight (hlines _ hline)] at hblank
    cases hblank
  · intro a b h
    have hgap := hparts a ('\n' :: '\n' :: b) h
    refine hspaced (lines (front ++ a)) (lines (b ++ back)) ?_
    rw [hgap]
    rfl
  · intro x b h
    obtain ⟨blanks, hleft⟩ := hright
    rw [h] at hleft
    exact not_blank_of_trimLeft hleft
  · intro a x h
    exact not_blank_of_trimRight h

/-- A tidied text is tidy. -/
theorem tidy_clean (t : Text) : Tidy (clean t) := by
  have hmem : ∀ l ∈ squeezeFrom false ((lines t).map trimRight), ∃ m ∈ lines t, trimRight m = l :=
    fun l hl => List.mem_map.1 (mem_squeezeFrom hl)
  have hline : ∀ l ∈ squeezeFrom false ((lines t).map trimRight), '\n' ∉ l := by
    intro l hl hnewline
    obtain ⟨m, hm, rfl⟩ := hmem l hl
    obtain ⟨blanks, heq, -⟩ := eq_trimRight_append m
    apply not_mem_of_mem_splitOn hm
    rw [heq]
    exact List.mem_append_left _ hnewline
  have hne : squeezeFrom false ((lines t).map trimRight) ≠ [] := by
    cases hlines : (lines t).map trimRight with
    | nil => exact absurd (List.map_eq_nil_iff.1 hlines) (lines_ne_nil t)
    | cons l ls => simp [squeezeFrom]
  have hlines := lines_unlines hne hline
  apply tidy_of_lines
  · rw [hlines]
    intro l hl
    obtain ⟨m, -, rfl⟩ := hmem l hl
    exact trimRight_trimRight m
  · rw [hlines]
    exact spaced_squeezeFrom false _

/-- **Tidying once is enough.** -/
theorem clean_clean (t : Text) : clean (clean t) = clean t := (tidy_clean t).clean_eq

/-! ## The layout of a tidy text -/

/-- **The text is laid out**: no line ends in white space, no two lines in a row are empty, and there is no white
space at the ends of the text. -/
structure LaidOut (t : Text) : Prop where
  lineEnds : ∀ l ∈ lines t, l.getLast?.any isBlank = false
  gaps : Spaced (lines t)
  start : t.head?.any isBlank = false
  stop : t.getLast?.any isBlank = false

theorem LaidOut.tidy (h : LaidOut t) : Tidy t := by
  have htrim : trim t = t := by rw [trim_eq_trimRight h.start, trimRight_eq_self h.stop]
  have htidy := tidy_of_lines (fun l hl => trimRight_eq_self (h.lineEnds l hl)) h.gaps
  rwa [htrim] at htidy

/-- No line of a tidy text ends in white space: behind it there is nothing, or a line feed. -/
theorem Tidy.lineEnd {l : Text} (h : Tidy t) (hl : l ∈ lines t) : l.getLast?.any isBlank = false := by
  obtain ⟨before, after, hlines⟩ := List.append_of_mem hl
  obtain ⟨r, ht, hend⟩ := eq_of_lines hlines
  have hfeed : '\n' ∉ l := not_mem_of_mem_splitOn hl
  rcases List.eq_nil_or_concat l with rfl | ⟨p, x, rfl⟩
  · rfl
  · rw [List.concat_eq_append] at ht hfeed ⊢
    rw [List.getLast?_concat, Option.any_some]
    rcases hend with rfl | ⟨r', rfl⟩
    · exact h.stop (ended before ++ p) x (by rw [ht, List.append_nil, List.append_assoc])
    · rw [Bool.eq_false_iff]
      intro hblank
      have hx := h.lineEnds (ended before ++ p) x r' (by rw [ht]; simp) hblank
      exact hfeed (by rw [hx]; simp)

/-- No two lines of a tidy text in a row are empty. -/
theorem Tidy.spaced (h : Tidy t) : Spaced (lines t) := by
  intro front back hlines
  rw [List.append_cons] at hlines
  obtain ⟨r, ht, hend⟩ := eq_of_lines hlines
  rw [ended_concat, List.nil_append, List.nil_append, List.append_assoc, List.singleton_append] at ht
  rcases List.eq_nil_or_concat front with rfl | ⟨front, l, rfl⟩
  · exact absurd (h.start '\n' r ht) (by decide)
  · rw [List.concat_eq_append, ended_concat] at ht
    rcases hend with rfl | ⟨r', rfl⟩
    · exact absurd (h.stop (ended front ++ (l ++ ['\n'])) '\n' ht) (by decide)
    · exact h.gaps (ended front ++ l) r' (by rw [ht]; simp)

/-- **The tidy texts are those that are laid out.** -/
theorem laidOut_iff : LaidOut t ↔ Tidy t := by
  refine ⟨LaidOut.tidy, fun h => ⟨fun l => h.lineEnd, h.spaced, ?_, ?_⟩⟩
  · cases t with
    | nil => rfl
    | cons x b => exact h.start x b rfl
  · rcases List.eq_nil_or_concat t with rfl | ⟨a, x, rfl⟩
    · rfl
    · rw [List.concat_eq_append, List.getLast?_concat]
      exact h.stop a x (List.concat_eq_append ..)

theorem Tightens.length_lt (h : Tightens t t') : t'.length < t.length := by
  cases h <;> simp

/-- Tidying makes no text longer. -/
theorem length_clean_le (t : Text) : (clean t).length ≤ t.length := by
  have hreaches := reaches_clean t
  generalize clean t = t' at hreaches
  induction hreaches with
  | refl => exact Nat.le_refl _
  | tail _ hstep ih => exact Nat.le_trans (Nat.le_of_lt hstep.length_lt) ih

/-- **Tidying brings a text into its normal form.** The result is laid out, has the bytes of the text that are no white
space, in their order, and is no longer than the text, so the number of dropped bytes that the pass reports makes up the
difference. Tidying leaves exactly the texts alone that are laid out, and doing it twice is doing it once. -/
theorem clean_normal_form (t : Text) :
    LaidOut (clean t) ∧ bare (clean t) = bare t ∧ (clean t).length ≤ t.length ∧
    (clean t = t ↔ LaidOut t) ∧ clean (clean t) = clean t ∧
    ∀ c : Conversion, ∃ dropped, (clean t).length + dropped = t.length ∧
      Pass.applyLayout { c with content := t } = ({ c with content := clean t }, [Pass.note .debug "cleanup"
        ("normalized whitespace, ".toList ++ Text.ofNat dropped ++ " bytes dropped".toList)]) := by
  refine ⟨laidOut_iff.2 (tidy_clean t), (reaches_clean t).eq_of_loses Loses.bare_eq, length_clean_le t, ?_,
    clean_clean t, ?_⟩
  · constructor
    · intro h
      rw [← h]
      exact laidOut_iff.2 (tidy_clean t)
    · intro h
      exact h.tidy.clean_eq
  · intro c
    exact ⟨t.length - (clean t).length, Nat.add_sub_cancel' (length_clean_le t), rfl⟩

end Flatsheet.Style
