import Flatsheet.Proofs.Repair.Parentheses
import Flatsheet.Proofs.Style.Reconversion
import Flatsheet.Proofs.Text.Shelter
import Flatsheet.Repair.Fixer

/-!
# `Proofs.Repair.Mending` — repairs that only retouch a line

Most repairs of a line are scripts of small changes: parentheses and semicolons are put in and left out
(`retouched_balanceParens`, `retouched_ended`, `retouched_collapseSemicolons`), and a reference becomes an expression by
putting in `var(--` before it, leaving out the dollar sign, and putting in the parenthesis behind the name
(`retouched_convertReferences`, `retouched_replaceVariable`). Two of them can put bytes side by side that mean something
together, or come between such bytes: balancing (`Joined`), and replacing a variable whose name does not end in an
identifier byte (`Abuts`).
-/

namespace Flatsheet.Repair

open Text Style Check Mask

variable {a l l' r t t' name tail : Text} {n : Nat} {pieces : List (Text × Text)}

/-! ## Parentheses and semicolons -/

theorem LastOut.retouched (h : LastOut n t t') : Retouched t t' := by
  induction h with
  | none t => exact .refl t
  | one _ hunlinked _ ih => exact .leave (by decide) (by decide) hunlinked ih

/-- **Balancing retouches a line**, unless bytes are joined. -/
theorem retouched_balanceParens (hline : '\n' ∉ l) (hjoined : ¬ Joined (excess l) l) : Retouched l (balanceParens l) := by
  have htrimmed : Retouched l (stem l ++ Repair.tail l) := by
    rw [stem_append_tail]
    exact Retouched.trimRight hline
  by_cases hbalanced : Balanced l
  · rw [balanceParens_eq, if_pos hbalanced]
    exact .refl l
  · rcases lacking_or_excess hbalanced with hlacking | hexcess
    · have hput : Retouched (stem l ++ Repair.tail l) (stem l ++ List.replicate (lacking l) ')' ++ Repair.tail l) := by
        apply Retouched.puts
        · intro c hc
          rw [List.eq_of_mem_replicate hc]
          decide
        · -- what stands behind the stem is mild
          cases htail : Repair.tail l with
          | nil => exact Retouched.not_linked_none _
          | cons x r => exact (mild_tail (htail ▸ List.mem_cons_self)).not_linked_right _
      rw [balanceParens_of_lacking hlacking]
      exact htrimmed.trans hput
    · exact htrimmed.trans (lastOut_of_excess hexcess hjoined).retouched

/-- **A semicolon put in at the end of a line retouches it.** -/
theorem retouched_ended (hline : '\n' ∉ l) : Retouched l (trimRight l ++ [';']) := by
  have hput : Retouched (trimRight l ++ []) (trimRight l ++ [';'] ++ []) :=
    Retouched.puts (by simp [Mild]) (Retouched.not_linked_none _)
  rw [List.append_nil, List.append_nil] at hput
  exact (Retouched.trimRight hline).trans hput

/-- **Collapsing semicolons retouches a line.** -/
theorem retouched_collapseSemicolons (a l : Text) : Retouched (a ++ l) (a ++ collapseSemicolons l) := by
  fun_induction collapseSemicolons l generalizing a with
  | case1 r hnext ih =>
    apply Retouched.leave (by decide) (by decide) _ (ih a)
    rw [hnext]
    exact Mild.not_linked_right (by decide) _
  | case2 r hnext ih => simpa using ih (a ++ [';'])
  | case3 c r hc ih => simpa using ih (a ++ [c])
  | case4 => exact .refl _

/-! ## References -/

theorem mild_of_isIdent {c : Char} (h : isIdent c = true) : Mild c := by
  have hmarks : ∀ x ∈ ['/', '*', ':', '"', '\'', '\\', '\n'], isIdent x = false := by
    intro x hx
    simp only [List.mem_cons, List.not_mem_nil, or_false] at hx
    rcases hx with rfl | rfl | rfl | rfl | rfl | rfl | rfl <;> rfl
  intro hmem
  rw [hmarks c hmem] at h
  cases h

/-- Behind each name of a woven text stands a byte that is not linked to it. -/
def Unlinked : List (Text × Text) → Text → Prop
  | [], _ => True
  | (_, name) :: pieces, tail => ¬ Linked name.getLast? (weave reference pieces tail).head? ∧ Unlinked pieces tail

/-- **Writing a reference as an expression retouches a line.** -/
theorem retouched_expression (a : Text) (h : ¬ Linked name.getLast? r.head?) :
    Retouched (a ++ (reference name ++ r)) (a ++ (expression name ++ r)) := by
  have hmark : ∀ c ∈ mark, Mild c ∧ c ≠ '{' ∧ c ≠ '}' := by
    show ∀ c ∈ ['v', 'a', 'r', '(', '-', '-'], Mild c ∧ c ≠ '{' ∧ c ≠ '}'
    simp [Mild]
  -- the mark is put in before the dollar sign, which is left out then
  have hopen : Retouched (a ++ '$' :: (name ++ r)) (a ++ mark ++ '$' :: (name ++ r)) :=
    Retouched.puts hmark (Mild.not_linked_right (by decide) _)
  have hdollar : Retouched (a ++ mark ++ '$' :: (name ++ r)) (a ++ mark ++ (name ++ r)) := by
    apply Retouched.leave (by decide) (by decide) _ (.refl _)
    have hlast : (a ++ mark).getLast? = some '-' := getLast?_append_right a (by decide)
    rw [hlast]
    exact Mild.not_linked_left (by decide) _
  -- and the parenthesis is put in behind the name
  have hclose : Retouched (a ++ mark ++ name ++ r) (a ++ mark ++ name ++ [')'] ++ r) := by
    apply Retouched.puts (by simp [Mild])
    by_cases hname : name = []
    · have hlast : (a ++ mark ++ name).getLast? = some '-' := by
        rw [hname, List.append_nil]
        exact getLast?_append_right a (by decide)
      rw [hlast]
      exact Mild.not_linked_left (by decide) _
    · rwa [getLast?_append_right _ hname]
  rw [List.append_assoc _ name] at hclose
  simpa [expression, reference] using hopen.trans (hdollar.trans hclose)

theorem retouched_weave (a : Text) (h : Unlinked pieces tail) :
    Retouched (a ++ weave reference pieces tail) (a ++ weave expression pieces tail) := by
  induction pieces generalizing a with
  | nil => exact .refl _
  | cons p pieces ih =>
    obtain ⟨front, name⟩ := p
    have hone := retouched_expression (a ++ front) h.1
    have hrest := ih (a ++ front ++ expression name) h.2
    simp only [weave, List.append_assoc] at hone hrest ⊢
    exact hone.trans hrest

/-- **Converting the references of a line retouches it.** -/
theorem retouched_convertReferences (l : Text) : Retouched l (convertReferences l).1 := by
  obtain ⟨pieces, tail, hl, hresult, hnames, -⟩ := exists_cut l
  have hunlinked : Unlinked pieces tail := by
    clear hl hresult
    induction pieces with
    | nil => trivial
    | cons p pieces ih =>
      refine ⟨?_, ih fun q hq => hnames q (List.mem_cons_of_mem p hq)⟩
      cases hlast : p.2.getLast? with
      | none => simp [Linked]
      | some c =>
        have hident := (hnames p List.mem_cons_self).2 c (List.mem_of_getLast? hlast)
        exact (mild_of_isIdent hident).not_linked_left _
  rw [hresult]
  conv => lhs; rw [hl]
  exact retouched_weave [] hunlinked

/-! ## Uses of a variable -/

/-- A reference to the variable stands before a byte that is linked to its name. -/
def Abuts (name l : Text) : Prop :=
  ∃ a r, l = a ++ (reference name ++ r) ∧ Linked name.getLast? r.head?

/-- Looks for the text of a reference, and tells whether it is a use. -/
def spotUse (word : Text) (c : Cursor) : Sighting (Span × Bool) :=
  if startsWith c.rest word then
    .found (⟨c.pos, c.pos + word.length⟩, !(c.rest.drop word.length).head?.any isIdent) word.length
  else .nothing

/-- What is found, if it is a use. -/
def useOf (found : Span × Bool) : Option Span := if found.2 then some found.1 else none

theorem lookUse_eq (word : Text) (c : Cursor) : lookUse word c =
    match spotUse word c with
    | .nothing => .nothing
    | .over => .over
    | .found a n => .found (useOf a) n := by
  unfold lookUse spotUse useOf
  cases startsWith c.rest word
  · rfl
  · cases (c.rest.drop word.length).head?.any isIdent <;> rfl

theorem sweepFrom_lookUse (word seen : Text) (pos wait : Nat) (t : Text) :
    sweepFrom (lookUse word) seen pos wait t = (sweepFrom (spotUse word) seen pos wait t).map useOf := by
  induction t generalizing seen pos wait with
  | nil => rfl
  | cons c r ih =>
    rw [sweepFrom, sweepFrom, lookUse_eq]
    split
    · exact ih ..
    · generalize spotUse word ⟨seen, pos, c :: r⟩ = sighting
      rcases sighting with - | - | ⟨a, n⟩
      · exact ih ..
      · rfl
      · exact congrArg _ (ih ..)

theorem spans_spotUse {word code : Text} (hword : word ≠ []) : Spans (spotUse word) code Prod.fst := by
  intro c a n hc hlook
  rw [spotUse] at hlook
  split at hlook
  · next hstarts =>
    obtain ⟨rfl, rfl⟩ := Sighting.found.inj hlook
    refine ⟨rfl, rfl, List.length_pos_iff.2 hword, ?_⟩
    have hle := (List.isPrefixOf_iff_prefix.1 hstarts).length_le
    have hlength := hc.length_rest
    omega
  · cases hlook

/-- The uses of a variable, each with its name. -/
def usesOf (name l : Text) : List (Span × Text) :=
  ((sweep (spotUse (reference name)) l).filter Prod.snd).map fun found => (found.1, name)

theorem replaceVariable_eq (name l : Text) : replaceVariable name l =
    replaceSpans l ((usesOf name l).map fun use => (use.1, expression use.2)) := by
  have huses : (sweep (lookUse (reference name)) l).filterMap (fun use => use.map fun s => (s, expression name)) =
      (usesOf name l).map fun use => (use.1, expression use.2) := by
    rw [usesOf, sweep, sweep, sweepFrom_lookUse]
    induction sweepFrom (spotUse (reference name)) [] 0 0 l with
    | nil => rfl
    | cons found rest ih =>
      obtain ⟨span, use⟩ := found
      cases use
      · simpa [useOf] using ih
      · simpa [useOf] using ih
  rw [← huses]
  rfl

theorem usesOf_apart (name l : Text) : Check.Apart l ((usesOf name l).map (·.1)) := by
  have hspans : Spans (spotUse (reference name)) l Prod.fst := spans_spotUse (List.cons_ne_nil '$' name)
  obtain ⟨hordered, hinside⟩ := sweep_apart hspans
  have hsub : ((usesOf name l).map (·.1)).Sublist ((sweep (spotUse (reference name)) l).map Prod.fst) := by
    rw [usesOf, List.map_map]
    exact List.filter_sublist.map _
  exact ⟨hordered.sublist hsub, fun s hs => hinside s (hsub.mem hs)⟩

/-- A use of a variable shows a reference to it. -/
theorem slice_of_use {use : Span × Text} (h : use ∈ usesOf name l) :
    slice l use.1.start use.1.stop = reference use.2 := by
  obtain ⟨found, hmem, rfl⟩ := List.mem_map.1 h
  obtain ⟨c, n, hc, hlook⟩ := mem_sweep (List.mem_filter.1 hmem).1
  rw [spotUse] at hlook
  split at hlook
  · next hstarts =>
    obtain ⟨rfl, rfl⟩ := Sighting.found.inj hlook
    obtain ⟨rest, hrest⟩ := List.isPrefixOf_iff_prefix.1 hstarts
    rw [slice, ← hc.rest, ← hrest]
    simp
  · cases hlook

/-- **Replacing a variable weaves the line of the same pieces**, with expressions in place of its uses. -/
theorem weave_of_replaced (name l : Text) : ∃ pieces tail, l = weave reference pieces tail ∧
    replaceVariable name l = weave expression pieces tail ∧ ∀ p ∈ pieces, p.2 = name := by
  obtain ⟨pieces, tail, hl, hresult, hplaces⟩ := weave_of_found (a := []) (u := l) expression (usesOf_apart name l)
    (fun f hf => slice_of_use hf) fun f _ => Nat.zero_le _
  refine ⟨pieces, tail, hl, ?_, ?_⟩
  · rw [replaceVariable_eq]
    exact hresult
  · intro p hp
    obtain ⟨i, hi⟩ := mem_places_of_mem 0 hp
    have hmem : stretch (i, p.2) ∈ usesOf name l := by
      rw [hplaces]
      exact List.mem_map_of_mem hi
    obtain ⟨found, -, hfound⟩ := List.mem_map.1 hmem
    exact (congrArg Prod.snd hfound).symm

/-- **Replacing a variable retouches a line**, unless a use of it is parted from the byte behind it. -/
theorem retouched_replaceVariable (h : ¬ Abuts name l) : Retouched l (replaceVariable name l) := by
  obtain ⟨pieces, tail, hl, hresult, hnames⟩ := weave_of_replaced name l
  have hunlinked : ∀ a, l = a ++ weave reference pieces tail → Unlinked pieces tail := by
    clear hl hresult
    induction pieces with
    | nil => exact fun _ _ => trivial
    | cons p pieces ih =>
      obtain ⟨front, word⟩ := p
      obtain rfl : word = name := hnames _ List.mem_cons_self
      intro a hl
      rw [weave, List.append_assoc, ← List.append_assoc a] at hl
      refine ⟨fun hlinked => h ⟨a ++ front, _, hl, hlinked⟩, ?_⟩
      apply ih (fun q hq => hnames q (List.mem_cons_of_mem _ hq)) (a ++ front ++ reference word)
      rw [hl, List.append_assoc (a ++ front)]
  rw [hresult]
  conv => lhs; rw [hl]
  exact retouched_weave [] (hunlinked [] hl)

end Flatsheet.Repair
