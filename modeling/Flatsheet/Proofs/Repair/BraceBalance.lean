import Flatsheet.Proofs.Repair.Sheltering

/-!
# `Proofs.Repair.BraceBalance` — the braces of a file through a repair

A file whose code has as many opening as closing braces has so after a repair, too, as long as a statement that is taken
out of use holds as many of the ones as of the others. Statements are followed by the braces that stand in them, so this
fails where one of these is no brace of the code, as in a string, and where the file ends before the statement.
-/

namespace Flatsheet.Repair

open Text Mask

variable {c c' : Candidate} {q : Option OpenStatement}

/-- **The braces of the code are where they were**, or in the statement that is still open at the end of the file. -/
theorem Goes.braceBalance (h : Goes none c.lines c'.lines q) (hlines : ∀ l ∈ c.lines, '\n' ∉ l)
    (hbreaks : ¬ Somewhere Breaks .code c.lines c'.lines) (hconceals : ¬ Somewhere Conceals .code c.lines c'.lines) :
    c.braceBalance = c'.braceBalance + openBraces q := by
  have hcounts := (h.readable (.inl rfl) hlines hbreaks).2 hconceals
  rw [Candidate.braceBalance_eq_net, Candidate.braceBalance_eq_net, Candidate.content, Candidate.content, zones_unlines,
    zones_unlines, ← hcounts]
  exact (Int.add_zero _).symm

/-- **Repairs keep braces in balance**: after every repair a file whose braces are in balance is so still, or one of its
lines is broken, or a brace is taken out of use that is not in code, or the file ends in a statement with open braces. -/
theorem balance_kept (call : RepairCall) {files : List Candidate} {i : Nat} (hlines : ∀ l ∈ c.lines, '\n' ∉ l)
    (hc : files[i]? = some c) (hc' : (call.answer files).1[i]? = some c') (hbalance : c.braceBalance = 0) :
    c'.braceBalance = 0 ∨
    (∃ n l l', c.lines[n]? = some l ∧ c'.lines[n]? = some l' ∧
      (Breaks (State.after none .code none (ended (c.lines.take n))) l l' ∨
        Conceals (State.after none .code none (ended (c.lines.take n))) l l')) ∨
    ∃ o, Goes none c.lines c'.lines (some o) ∧ 0 < o.depth := by
  rcases call.mends hc hc' with rfl | ⟨q, hgoes⟩
  · -- no block is open
    left
    rw [Candidate.closeBlocks_eq, Candidate.closed_of_le (Int.le_of_eq hbalance), hbalance]
  · by_cases hline : Somewhere (fun s l l' => Breaks s l l' ∨ Conceals s l l') .code c.lines c'.lines
    · right
      left
      obtain ⟨n, l, l', hl, hl', hbad⟩ := hline
      rw [entry_eq] at hbad
      exact ⟨n, l, l', hl, hl', hbad⟩
    · -- every line was treated well, so only an open statement can change the count
      have hcount := hgoes.braceBalance hlines (fun h => hline (h.mono fun _ _ _ => .inl))
        fun h => hline (h.mono fun _ _ _ => .inr)
      cases q with
      | none =>
        left
        rw [← hbalance, hcount]
        exact (Int.add_zero _).symm
      | some o =>
        by_cases hdepth : o.depth = 0
        · left
          rw [← hbalance, hcount, openBraces, hdepth]
          exact (Int.add_zero _).symm
        · exact .inr (.inr ⟨o, hgoes, Nat.pos_of_ne_zero hdepth⟩)

/-- A file with a mixin call that has a block of its own. -/
def nested : Candidate :=
  ⟨"a.scss".toList, "a.scss".toList, "a.css".toList, [],
    [".a \x7b @include x \x7b".toList, "  b: c;".toList, "\x7d \x7d".toList], false⟩

/-- The file after the aggressive repair. -/
def nestedRepaired : Candidate :=
  { nested with
    lines := [".a \x7b /* @include x \x7b */".toList, "  // b: c;".toList, "/* \x7d */ \x7d".toList], dirty := true }

theorem nested_balanced :
    ((∀ l ∈ nested.lines, '\n' ∉ l) ∧ [nested][0]? = some nested ∧
      (RepairCall.aggressive.answer [nested]).1[0]? = some nestedRepaired ∧ nested.braceBalance = 0) ∧
    (nestedRepaired.braceBalance = 0 ∨
      (∃ n l l', nested.lines[n]? = some l ∧ nestedRepaired.lines[n]? = some l' ∧
        (Breaks (State.after none .code none (ended (nested.lines.take n))) l l' ∨
          Conceals (State.after none .code none (ended (nested.lines.take n))) l l')) ∨
      ∃ o, Goes none nested.lines nestedRepaired.lines (some o) ∧ 0 < o.depth) := by
  have hlines : ∀ l ∈ nested.lines, '\n' ∉ l := by decide
  have hrepaired : (RepairCall.aggressive.answer [nested]).1[0]? = some nestedRepaired := by decide +kernel
  have hbalance : nested.braceBalance = 0 := by decide +kernel
  exact ⟨⟨hlines, rfl, hrepaired, hbalance⟩, balance_kept .aggressive hlines rfl hrepaired hbalance⟩

/-- A file with a brace in the string that is given to a mixin. -/
def braceInString : Candidate :=
  ⟨"a.scss".toList, "a.scss".toList, "a.css".toList, [], [".a \x7b @include x(\"\x7b\"); \x7d".toList, []], false⟩

/-- The file after the aggressive repair. -/
def braceInStringRepaired : Candidate :=
  { braceInString with lines := [".a \x7b /* @include x(\"\x7b\"); \x7d */".toList, []], dirty := true }

/-- **A brace in a string unbalances a file**: the statement takes in the brace that closes its rule. -/
theorem string_unbalances : (RepairCall.aggressive.answer [braceInString]).1 = [braceInStringRepaired] ∧
    braceInString.braceBalance = 0 ∧ braceInStringRepaired.braceBalance = 1 := by
  decide +kernel

end Flatsheet.Repair
