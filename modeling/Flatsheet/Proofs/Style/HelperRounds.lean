import Flatsheet.Conversion.Pass
import Flatsheet.Proofs.Conversion.Run
import Flatsheet.Proofs.Style.Arguments
import Flatsheet.Proofs.Style.Interlace
import Flatsheet.Proofs.Style.Rounds
import Flatsheet.Proofs.Style.Sweep

/-!
# `Proofs.Style.HelperRounds` — replacing calls of colour functions comes to an end

A call can be replaced by something longer than itself, and what takes its place can make up a new call with the
text behind it. What always gets less are the opening parentheses and dollar signs of the text (`weight`): with a
call its parenthesis goes, its first argument brings none but its own, and the hover shade has one parenthesis in
place of the parenthesis or the dollar sign of the primary colour.

So the rounds end by themselves, after no more replacements than the text has of these bytes, and nothing is left to
replace (`helpers_settle`).
-/

namespace Flatsheet.Style

open Text Check Mask

variable {code t t' : Text} {c : Cursor} {call : HelperCall} {found : List HelperCall} {n rounds : Nat}

/-- **The opening parentheses and dollar signs of a text.** -/
def weight (t : Text) : Nat := t.count '(' + t.count '$'

theorem weight_append (a b : Text) : weight (a ++ b) = weight a + weight b := by
  rw [weight, weight, weight, List.count_append, List.count_append]
  omega

theorem weight_gain (a b : Text) : weight a + weight b ≤ weight (a ++ b) := Nat.le_of_eq (weight_append a b).symm

/-! ## One call -/

/-- A call has its arguments between the parentheses behind its name. -/
theorem HelperCall.arguments_found (hc : c.At (codeMask t))
    (hlook : HelperCall.look t c = .found call n) : ∃ i j, c.pos ≤ i ∧ i < j ∧ call.span = ⟨c.pos, j⟩ ∧
      t[i]? = some '(' ∧ call.arguments = splitTopLevel ',' (slice t (i + 1) (j - 1)) := by
  unfold HelperCall.look at hlook
  split at hlook
  · cases hlook
  · next name hname =>
    dsimp only at hlook
    split at hlook
    · cases hlook
    · next hopen =>
      split at hlook
      · cases hlook
      · next stop hgroup =>
        cases hlook
        have hstart : ((c.advance name.length).skip isSpaceOrTab).At (codeMask t) := (hc.advance _).skip _
        obtain ⟨-, hlt, -⟩ := hstart.group hgroup
        have hle : c.pos ≤ ((c.advance name.length).skip isSpaceOrTab).pos :=
          Nat.le_trans (Cursor.le_pos_advance _ _) (Cursor.le_pos_skip _ _)
        have hbyte : ((c.advance name.length).skip isSpaceOrTab).byte? = some '(' := by
          simp only [Bool.or_eq_true, decide_eq_true_eq, not_or, Decidable.not_not] at hopen
          exact hopen.2
        rw [hstart.byte?] at hbyte
        exact ⟨_, _, hle, hlt, rfl, getElem?_of_run hbyte (by decide), rfl⟩

/-- What takes the place of a call weighs no more than its arguments. -/
theorem weight_replacement_le (name : Text) (arguments : List Text) :
    weight (HelperCall.replacementFor name arguments) ≤ (arguments.map weight).sum := by
  cases arguments with
  | nil => exact Nat.zero_le _
  | cons first others =>
    rw [List.map_cons, List.sum_cons, HelperCall.replacementFor]
    split
    · exact Nat.zero_le _
    · split
      · next hprimary =>
        have hfirst : weight first = 1 := by
          simp only [Bool.and_eq_true, Bool.or_eq_true, decide_eq_true_eq] at hprimary
          rcases hprimary.2 with rfl | rfl <;> rfl
        have hhover : weight "var(--primaryhover)".toList = 1 := rfl
        omega
      · exact Nat.le_add_right _ _

/-- **A call weighs more than what takes its place**: its own parenthesis goes. -/
theorem weight_call_lt (hcall : call ∈ HelperCall.find t) :
    weight call.replacement < weight (slice t call.span.start call.span.stop) := by
  obtain ⟨c, n, hc, hlook⟩ := mem_sweep hcall
  obtain ⟨i, j, hle, hlt, hspan, hparenthesis, harguments⟩ := HelperCall.arguments_found hc hlook
  have hsplit := sum_splitTopLevel_le weight_gain ',' (slice t (i + 1) (j - 1))
  have hreplaced := weight_replacement_le call.name call.arguments
  have hcalled : weight (slice t c.pos j) = weight (slice t c.pos i) + (1 + weight (slice t (i + 1) j)) := by
    obtain ⟨hlength, hi⟩ := List.getElem?_eq_some_iff.1 hparenthesis
    rw [slice_append hle (Nat.le_of_lt hlt), weight_append, slice_cons hlt hlength, hi]
    simp [weight]
    omega
  have hinside : weight (slice t (i + 1) (j - 1)) ≤ weight (slice t (i + 1) j) :=
    le_of_contained weight_gain (slice_of_larger (Nat.le_refl _) (Nat.sub_le j 1) t)
  rw [HelperCall.replacement, hspan]
  rw [← harguments] at hsplit
  dsimp only
  omega

/-! ## One round -/

/-- The text after all outermost calls have been replaced. -/
def helperRound (t : Text) : Text :=
  replaceSpans t ((HelperCall.find t).map fun h => (h.span, h.replacement))

/-- The calls of a text lie apart. -/
theorem helpers_apart (t : Text) : Apart t ((HelperCall.find t).map (·.span)) := by
  have hspans : Spans (HelperCall.look t) (codeMask t) (·.span) :=
    fun c h n hc hlook => (HelperCall.look_found hc hlook).1
  exact apart_of_codeMask (sweep_apart hspans)

/-- **Each call replaced takes at least one byte of the weight away.** -/
theorem weight_helperRound_le (t : Text) : weight (helperRound t) + (HelperCall.find t).length ≤ weight t := by
  have hround := replaceSpans_le HelperCall.replacement (fun _ => 1) (fun _ => 0)
    weight_gain (helpers_apart t) fun h hh u v => by
      have hless := weight_call_lt hh
      rw [weight_append, weight_append]
      omega
  simpa [helperRound, List.map_const', List.sum_replicate_nat] using hround

/-! ## All rounds -/

theorem replaceHelperRounds_eq_upTo (rounds : Nat) (t : Text) :
    replaceHelperRounds rounds t = roundsUpTo HelperCall.find helperRound rounds t := by
  induction rounds generalizing t with
  | zero => rfl
  | succ rounds ih =>
    rw [replaceHelperRounds, roundsUpTo, ← ih]
    rfl

/-- **The loop that replaces calls ends**, and gives what `replaceHelpers` gives. -/
theorem replaceHelpers_runs (t : Text) : ∃ n,
    Runs HelperCall.find helperRound n t (replaceHelpers t).2 (replaceHelpers t).1 ∧
      (replaceHelpers t).2.length ≤ weight t := by
  obtain ⟨n, found, t', hruns, hn⟩ := runs_of_progress HelperCall.find helperRound
    (t := t) (μ := weight) fun k hk => by
      have hround := weight_helperRound_le (helperRound^[k] t)
      have hsome := List.length_pos_iff.2 hk
      rw [Function.iterate_succ_apply']
      omega
  have hle := hruns.le (μ := weight) (fun _ => 0) fun t => Nat.le_add_right_of_le (weight_helperRound_le t)
  have hsame : replaceHelpers t = (t', found) := by
    rw [replaceHelpers, ← weight, replaceHelperRounds_eq_upTo]
    exact hruns.roundsUpTo_eq (by omega)
  have hlength : found.length ≤ weight t := by
    simp only [List.map_const', List.sum_replicate_nat] at hle
    omega
  rw [hsame]
  exact ⟨n, hruns, hlength⟩

/-- What a pass records about itself is apart from the calls. -/
theorem helpers_record (c : Conversion) (name : Text) (step : Step) :
    ({ c.addTransformation name with step := step } : Conversion).helpers = c.helpers := by
  unfold Conversion.addTransformation
  split <;> rfl

/-- **Replacing calls of colour functions settles every sheet**: the rounds of the pass end by themselves, no call is
left, and there are no more replacements, counted and recorded, than the sheet has opening parentheses and dollar
signs. -/
theorem helpers_settle (hosts : AssetHosts) (c : Conversion) : ∃ rounds calls,
    Runs HelperCall.find helperRound rounds c.content calls (Pass.helpers.apply hosts c).1.content ∧
    HelperCall.find (Pass.helpers.apply hosts c).1.content = [] ∧
    (Pass.helpers.apply hosts c).1.helpers.Perm (c.helpers ++ calls) ∧
    (Pass.helpers.apply hosts c).1.counters.functionsReplaced = c.counters.functionsReplaced + calls.length ∧
    calls.length ≤ c.content.count '(' + c.content.count '$' := by
  obtain ⟨n, hruns, hle⟩ := replaceHelpers_runs c.content
  obtain ⟨htext, hcounters⟩ := apply_helpers hosts c
  have hcalls : (Pass.helpers.apply hosts c).1.helpers =
      (c.helpers ++ (replaceHelpers c.content).2).mergeSort fun a b => a.line ≤ b.line :=
    helpers_record (Pass.applyHelpers c).1 Pass.helpers.name Pass.helpers.step
  refine ⟨n, (replaceHelpers c.content).2, ?_, ?_, ?_, ?_, hle⟩
  · rw [htext]
    exact hruns
  · rw [htext]
    exact hruns.settled
  · rw [hcalls]
    exact List.mergeSort_perm _ _
  · exact congrArg Counters.functionsReplaced hcounters

end Flatsheet.Style
