import Flatsheet.Proofs.Check.Splice
import Mathlib.Algebra.GroupWithZero.Nat

/-!
# `Proofs.Style.Interlace` — a text and the things found in it

A text in which things have been found lies before us as gaps with the things between them (`interlace`). When
something else is put in the place of each thing, the gaps stay (`exists_interlace`).

So a quantity that a text has from its parts gets less in the whole by what it gets less in each of the things, and
more by what it gets more. It is enough that a text has at least what its parts have (`interlace_le`).
-/

namespace Flatsheet.Style

open Text Check

variable {α : Type} {t tail : Text} {found : List α} {span : α → Span} {gaps : List (Text × α)}

/-- The text of gaps, behind each of which a thing is written in the given way. -/
def interlace (write : α → Text) : List (Text × α) → Text → Text
  | [], tail => tail
  | (gap, a) :: rest, tail => gap ++ write a ++ interlace write rest tail

/-- The things of such a text, each with the offset at which it is written. -/
def offsets (write : α → Text) (pos : Nat) : List (Text × α) → List (Nat × α)
  | [] => []
  | (gap, a) :: rest => (pos + gap.length, a) :: offsets write (pos + gap.length + (write a).length) rest

/-- From an offset on, up to which nothing has been found. -/
theorem exists_interlace_from (span : α → Span) (piece : α → Text) {i : Nat} (hi : i ≤ t.length)
    (apart : Apart t (found.map span)) (hfrom : ∀ a ∈ found, i ≤ (span a).start) : ∃ gaps tail,
      gaps.map (·.2) = found ∧
      offsets (fun a => slice t (span a).start (span a).stop) i gaps = (found.map fun a => ((span a).start, a)) ∧
      t.drop i = interlace (fun a => slice t (span a).start (span a).stop) gaps tail ∧
      replaceSpans t (found.map fun a => (span a, piece a)) = t.take i ++ interlace piece gaps tail := by
  induction found generalizing i with
  | nil => exact ⟨[], t.drop i, rfl, rfl, rfl, (List.take_append_drop i t).symm⟩
  | cons a found ih =>
    obtain ⟨hordered, hinside⟩ := apart
    rw [List.map_cons, List.pairwise_cons] at hordered
    obtain ⟨hlt, hstop⟩ := hinside _ List.mem_cons_self
    have hle : i ≤ (span a).start := hfrom a List.mem_cons_self
    obtain ⟨gaps, tail, hgaps, hoffsets, htext, hput⟩ := ih hstop
      ⟨hordered.2, fun s hs => hinside s (List.mem_cons_of_mem _ hs)⟩
      fun b hb => hordered.1 _ (List.mem_map_of_mem hb)
    -- the gap before the first one is what has not been found
    refine ⟨(slice t i (span a).start, a) :: gaps, tail, ?_, ?_, ?_, ?_⟩
    · rw [List.map_cons, hgaps]
    · have hgap : i + (slice t i (span a).start).length = (span a).start := by
        rw [length_slice (by omega)]
        omega
      have hthing : (span a).start + (slice t (span a).start (span a).stop).length = (span a).stop := by
        rw [length_slice hstop]
        omega
      rw [offsets, hgap, hthing, hoffsets, List.map_cons]
    · rw [interlace, ← htext, ← slice_append hle (Nat.le_of_lt hlt), ← drop_eq_slice_append (by omega)]
    · show replaceSpan (replaceSpans t (found.map fun b => (span b, piece b))) (span a) (piece a) = _
      have hstopped : (t.take (span a).stop).length = (span a).stop := List.length_take_of_le hstop
      have hstart : (span a).start ≤ (t.take (span a).stop).length := by omega
      rw [hput, replaceSpan, List.drop_left' hstopped, List.take_append_of_le_length hstart, List.take_take,
        Nat.min_eq_left (Nat.le_of_lt hlt), ← take_append_slice hle, interlace]
      simp only [List.append_assoc]

/-- **A text lies before us as gaps and what is found between them**, and the gaps stay when something else is put
in its place. -/
theorem exists_interlace (span : α → Span) (piece : α → Text) (apart : Apart t (found.map span)) : ∃ gaps tail,
    gaps.map (·.2) = found ∧
    offsets (fun a => slice t (span a).start (span a).stop) 0 gaps = (found.map fun a => ((span a).start, a)) ∧
    t = interlace (fun a => slice t (span a).start (span a).stop) gaps tail ∧
    replaceSpans t (found.map fun a => (span a, piece a)) = interlace piece gaps tail :=
  exists_interlace_from span piece (Nat.zero_le _) apart fun _ _ => Nat.zero_le _

/-! ## Quantities -/

variable {μ : Text → Nat}

/-- **What is put in weighs less**, or more, thing by thing, and so does the text. -/
theorem interlace_le (write write' : α → Text) (less more : α → Nat) (gaps : List (Text × α)) (tail : Text)
    (gain : ∀ a b, μ a + μ b ≤ μ (a ++ b))
    (step : ∀ g ∈ gaps, ∀ u v, μ (u ++ write g.2 ++ v) + less g.2 ≤ μ u + μ (write' g.2) + μ v + more g.2) :
    μ (interlace write gaps tail) + (gaps.map fun g => less g.2).sum ≤
      μ (interlace write' gaps tail) + (gaps.map fun g => more g.2).sum := by
  induction gaps with
  | nil => exact Nat.le_refl _
  | cons g gaps ih =>
    have hrest := ih fun g hg => step g (List.mem_cons_of_mem _ hg)
    have hnew := step g List.mem_cons_self g.1 (interlace write gaps tail)
    have hold := gain (g.1 ++ write' g.2) (interlace write' gaps tail)
    have hfront := gain g.1 (write' g.2)
    rw [interlace, interlace, List.map_cons, List.sum_cons, List.map_cons, List.sum_cons]
    omega

/-- **Pieces that weigh less make the text weigh less**, and so for those that weigh more. -/
theorem replaceSpans_le (piece : α → Text) (less more : α → Nat) (gain : ∀ a b, μ a + μ b ≤ μ (a ++ b))
    (apart : Apart t (found.map span))
    (step : ∀ a ∈ found, ∀ u v, μ (u ++ piece a ++ v) + less a ≤
      μ u + μ (slice t (span a).start (span a).stop) + μ v + more a) :
    μ (replaceSpans t (found.map fun a => (span a, piece a))) + (found.map less).sum ≤
      μ t + (found.map more).sum := by
  obtain ⟨gaps, tail, hgaps, -, htext, hput⟩ := exists_interlace span piece apart
  have hle := interlace_le piece (fun a => slice t (span a).start (span a).stop) less more gaps tail gain
    fun g hg => step g.2 (hgaps ▸ List.mem_map_of_mem hg)
  rw [← htext] at hle
  rw [hput, ← hgaps, List.map_map, List.map_map]
  exact hle

end Flatsheet.Style
