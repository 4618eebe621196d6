import Flatsheet.Proofs.Style.Rounds
import Flatsheet.Proofs.Style.Surplus

/-!
# `Proofs.Style.IncludeRounds` — expanding includes need not come to an end

Each include that a round replaces takes its own keyword away, and all that its arguments and its block have of them
is written again. So the text has fewer keywords after a round, by one for each include, but for the surplus of the
includes (`tokens_includeRound_le`). If none has a surplus in any round, the rounds end by themselves, after no more
expansions than the text has keywords (`includes_settle`).

An include with a surplus can make the keywords more (`repeated_argument_multiplies`).
-/

namespace Flatsheet.Style

open Text Check Mask

variable {code t t' : Text} {c : Cursor} {i : Include} {found : List Include} {n rounds : Nat}

/-! ## One include -/

theorem tokens_slices_le (t : Text) {i j k : Nat} (hij : i ≤ j) (hjk : j ≤ k) :
    tokens (slice t i j) + tokens (slice t j k) ≤ tokens (slice t i k) := by
  rw [slice_append hij hjk]
  exact tokens_gain _ _

/-- **An include has its own keyword, beside those of what it says.** -/
theorem tokens_include_le (hi : i ∈ Include.find t) :
    i.call.tokens + 1 ≤ tokens (slice t i.span.start i.span.stop) := by
  obtain ⟨c, n, hc, hlook⟩ := mem_sweep hi
  obtain ⟨name, nameEnd, argumentsEnd, blockEnd, arguments, block, hword, hspan, hplaces, harguments, hblock, hcall⟩ :=
    Include.look_parts hc hlook
  have hkeyword : slice t c.pos (c.pos + 8) = includeWord := by
    obtain ⟨r, hr⟩ := List.isPrefixOf_iff_prefix.1 hword
    apply slice_of_codeMask
    · rw [slice, ← hc.rest, ← hr, Nat.add_sub_cancel_left]
      exact List.take_left' rfl
    · decide
  have hone : tokens (slice t c.pos (c.pos + 8)) = 1 := by
    rw [hkeyword]
    decide +kernel
  have hparameters : (((arguments.map (splitTopLevel ',')).getD []).map tokens).sum ≤ tokens (arguments.getD []) := by
    cases arguments with
    | none => exact Nat.zero_le _
    | some inside => exact sum_splitTopLevel_le tokens_gain ',' inside
  have htrimmed : tokens ((block.map trim).getD []) ≤ tokens (block.getD []) := by
    cases block with
    | none => exact Nat.le_refl _
    | some inside => exact trim_le tokens_gain inside
  have hinside := tokens_le_of_contained harguments
  have hblocked := tokens_le_of_contained hblock
  -- the keyword, the name, the arguments and the block are one after the other in the include
  have hbehind := tokens_slices_le t (i := argumentsEnd) (j := blockEnd) (k := c.pos + n) (by omega) (by omega)
  have hsaid := tokens_slices_le t (i := nameEnd) (j := argumentsEnd) (k := c.pos + n) (by omega) (by omega)
  have hnamed := tokens_slices_le t (i := name) (j := nameEnd) (k := c.pos + n) (by omega) (by omega)
  have hspaced := tokens_slices_le t (i := c.pos + 8) (j := name) (k := c.pos + n) (by omega) (by omega)
  have hall := tokens_slices_le t (i := c.pos) (j := c.pos + 8) (k := c.pos + n) (by omega) (by omega)
  rw [hspan, hcall, MixinCall.tokens]
  dsimp only
  omega

/-! ## One round -/

/-- The text after all outermost includes have been replaced. -/
def includeRound (t : Text) : Text := expandRound t (Include.find t)

theorem includeRound_of_settled (h : Include.find t = []) : includeRound t = t := by
  rw [includeRound, h]
  rfl

theorem includes_apart (t : Text) : Apart t ((Include.find t).map (·.span)) := by
  have hspans : Spans (Include.look t) (codeMask t) (·.span) :=
    fun c i n hc hlook => (Include.look_found hc hlook).1
  exact apart_of_codeMask (sweep_apart hspans)

/-- **Each include replaced takes a keyword away**, and brings its surplus. -/
theorem tokens_includeRound_le (t : Text) : tokens (includeRound t) + (Include.find t).length ≤
    tokens t + ((Include.find t).map fun i => i.call.surplus).sum := by
  have hround := replaceSpans_le (fun i : Include => i.call.replacement) (fun _ => 1) (fun i => i.call.surplus)
    tokens_gain (includes_apart t) fun i hi u v => by
      have hput := (brings_replacement i.call).put u v
      have hown := tokens_include_le hi
      omega
  simpa [includeRound, expandRound, List.map_const', List.sum_replicate_nat] using hround

/-! ## All rounds -/

/-- Of what is found the loop records the calls. -/
theorem expandRounds_eq_upTo (rounds : Nat) (t : Text) : expandRounds rounds t =
    ((roundsUpTo Include.find includeRound rounds t).1,
      (roundsUpTo Include.find includeRound rounds t).2.map (·.call)) := by
  induction rounds generalizing t with
  | zero => rfl
  | succ rounds ih =>
    have hrest := ih (includeRound t)
    rw [includeRound] at hrest
    rw [expandRounds, roundsUpTo]
    dsimp only
    rw [hrest]
    split
    · rfl
    · rw [List.map_append, List.map_reverse]
      rfl

/-- **When expanding includes comes to an end.** For each text a round takes a keyword away with each include that it
replaces, and brings the surplus of these includes. So all rounds together do, and if in no round the includes have as
much surplus as they are many, the rounds end by themselves, after no more of them than the text has keywords, and no
include is left. -/
theorem includes_settle (t : Text) :
    tokens (includeRound t) + (Include.find t).length ≤
        tokens t + ((Include.find t).map fun i => i.call.surplus).sum ∧
    ((∀ k, Include.find (includeRound^[k] t) ≠ [] →
        ((Include.find (includeRound^[k] t)).map fun i => i.call.surplus).sum <
          (Include.find (includeRound^[k] t)).length) →
      ∃ rounds found t', Runs Include.find includeRound rounds t found t' ∧ Include.find t' = [] ∧
        rounds + tokens t' ≤ tokens t ∧
        tokens t' + found.length ≤ tokens t + (found.map fun i => i.call.surplus).sum ∧
        (tokens t ≤ expansionLimit → expandIncludes t = (t', found.map (·.call)))) := by
  refine ⟨tokens_includeRound_le t, ?_⟩
  intro hless
  obtain ⟨rounds, found, t', hruns, hle⟩ := runs_of_progress Include.find includeRound
    (t := t) (μ := tokens) fun k hk => by
      have hround := tokens_includeRound_le (includeRound^[k] t)
      have hsurplus := hless k hk
      rw [Function.iterate_succ_apply']
      omega
  refine ⟨rounds, found, t', hruns, hruns.settled, hle, hruns.le (fun i => i.call.surplus) tokens_includeRound_le, ?_⟩
  intro hlimit
  rw [expandIncludes, expandRounds_eq_upTo, hruns.roundsUpTo_eq (by omega)]

/-- An include in the argument of another one, which is in the block of a third one. -/
def nestedIncludes : Text := "@include breakpoint(md) \x7b @include flex-wrap(@include foo); \x7d".toList

theorem nestedIncludes_settle :
    (∀ k, Include.find (includeRound^[k] nestedIncludes) ≠ [] →
      ((Include.find (includeRound^[k] nestedIncludes)).map fun i => i.call.surplus).sum <
        (Include.find (includeRound^[k] nestedIncludes)).length) ∧
    tokens nestedIncludes ≤ expansionLimit ∧
    ∃ rounds found t', Runs Include.find includeRound rounds nestedIncludes found t' ∧ rounds ≤ 3 ∧
      expandIncludes nestedIncludes = (t', found.map (·.call)) := by
  have htokens : tokens nestedIncludes = 3 := by decide +kernel
  have hlimit : tokens nestedIncludes ≤ expansionLimit := by
    rw [htokens, expansionLimit]
    decide
  have hless : ∀ k, Include.find (includeRound^[k] nestedIncludes) ≠ [] →
      ((Include.find (includeRound^[k] nestedIncludes)).map fun i => i.call.surplus).sum <
        (Include.find (includeRound^[k] nestedIncludes)).length := by
    -- after three rounds there is no include, and the text stays
    have hsettled : Include.find (includeRound^[3] nestedIncludes) = [] := by decide +kernel
    have hfixed := includeRound_of_settled hsettled
    have hfirst : ∀ k < 3, ((Include.find (includeRound^[k] nestedIncludes)).map fun i => i.call.surplus).sum <
        (Include.find (includeRound^[k] nestedIncludes)).length := by decide +kernel
    intro k hk
    rcases Nat.lt_or_ge k 3 with hlt | hle
    · exact hfirst k hlt
    · obtain ⟨j, rfl⟩ : ∃ j, k = j + 3 := ⟨k - 3, by omega⟩
      rw [Function.iterate_add_apply, Function.iterate_fixed hfixed] at hk
      exact absurd hsettled hk
  obtain ⟨rounds, found, t', hruns, -, hle, -, hexpanded⟩ := (includes_settle nestedIncludes).2 hless
  exact ⟨hless, hlimit, rounds, found, t', hruns, by omega, hexpanded hlimit⟩

/-- An include in the argument of one that writes it three times. -/
def repeatedArgument : Text := "@include appearance(@include foo);".toList

/-- **An argument that is repeated repeats the includes in it**: the round that replaces one include leaves three, where
there were two before. -/
theorem repeated_argument_multiplies :
    (Include.find repeatedArgument).length = 1 ∧ tokens repeatedArgument = 2 ∧
    includeRound repeatedArgument =
      "-webkit-appearance:@include foo;-moz-appearance:@include foo;appearance:@include foo;".toList ∧
    tokens (includeRound repeatedArgument) = 3 := by
  refine ⟨?_, ?_, ?_, ?_⟩ <;> decide +kernel

end Flatsheet.Style
