import Flatsheet.Proofs.Repair.Disabling

/-!
# `Proofs.Repair.Statement` — the braces of a statement that is taken out of use

A statement is followed over its lines by its braces, counted as they stand. What is taken out of use on a line changes
the number of open braces by as much as it holds (`OpenStatement.disable_parts`), so a statement that has come to its end
holds as many opening as closing ones.
-/

namespace Flatsheet.Repair

open Text Mask

variable {l m r t : Text} {c : Char} {d d' n n' k last start : Nat} {o : OpenStatement}

/-- The braces that are open in a statement that goes on. -/
def openBraces : Option OpenStatement → Nat
  | none => 0
  | some o => o.depth

theorem net_allIn_cons (z : Zone) (c : Char) (t : Text) : net (allIn z (c :: t)) = net [(c, z)] + net (allIn z t) :=
  net_cons _ _

theorem net_open : net [('{', .code)] = 1 := rfl

theorem net_close : net [('}', .code)] = -1 := rfl

/-! ## The end of a statement -/

/-- A statement that ends before a text ends with a byte of its own, or before a brace that closes another one. -/
def EndsBefore (m r : Text) : Prop := r.head? = some '}' ∨ m.getLast? = some ';' ∨ m.getLast? = some '}'

theorem EndsBefore.cons (h : EndsBefore m r) (c : Char) : EndsBefore (c :: m) r := by
  refine h.imp_right fun hlast => ?_
  rw [List.getLast?_cons]
  exact hlast.imp (fun hm => by rw [hm]; rfl) fun hm => by rw [hm]; rfl

/-- The part of a statement in a text, which begins `k` bytes into its line and ends `last` bytes into it. -/
def PartTo (d k last : Nat) (t : Text) : Prop :=
  ∃ m r, t = m ++ r ∧ last = k + m.length ∧ EndsBefore m r ∧ net (allIn .code m) = -d

/-- A byte before it belongs to the statement. -/
theorem PartTo.cons (h : PartTo d' (k + 1) last t) (hnet : net [(c, .code)] = (d' : Int) - d) :
    PartTo d k last (c :: t) := by
  obtain ⟨m, r, rfl, rfl, hend, hm⟩ := h
  refine ⟨c :: m, r, rfl, ?_, hend.cons c, ?_⟩
  · rw [List.length_cons]
    omega
  · rw [net_allIn_cons, hnet, hm]
    omega

/-- **A statement that ends** closes the braces that it has left open. -/
theorem partTo_of_statementEnd (h : statementEnd d n k t = .ok last) : PartTo d k last t := by
  -- the induction follows the scan; each byte that it passes belongs to the statement
  fun_induction statementEnd d n k t with
  | case1 => cases h
  | case2 d n k r ih => exact (ih h).cons (by simp [net])
  | case3 d n k r _ ih => exact (ih h).cons (by simp [net])
  | case4 d n k r _ _ ih =>
    refine (ih h).cons ?_
    rw [net_open]
    omega
  | case5 n k r =>
    -- the brace belongs to what stands around the statement
    cases h
    exact ⟨[], '}' :: r, rfl, rfl, .inl rfl, rfl⟩
  | case6 d n k r _ hlast =>
    cases h
    obtain rfl : d = 1 := (Bool.and_eq_true_iff.1 hlast).1 |> of_decide_eq_true
    exact ⟨['}'], r, rfl, rfl, .inr (.inr rfl), rfl⟩
  | case7 d n k r hd _ _ _ _ ih =>
    refine (ih h).cons ?_
    rw [net_close]
    omega
  | case8 d n k c r _ _ _ _ hsemicolon =>
    cases h
    simp only [Bool.and_eq_true, decide_eq_true_eq] at hsemicolon
    obtain ⟨⟨rfl, rfl⟩, -⟩ := hsemicolon
    exact ⟨[';'], r, rfl, rfl, .inr (.inl rfl), rfl⟩
  | case9 d n k c r _ _ hopen hclose _ ih =>
    refine (ih h).cons ?_
    rw [net_of_ne fun _ => ⟨hopen, hclose⟩]
    omega

/-- **A statement that goes on** has left the braces open that it does not close. -/
theorem net_of_statementEnd (h : statementEnd d n k t = .error (d', n')) :
    net (allIn .code t) = (d' : Int) - d := by
  fun_induction statementEnd d n k t with
  | case1 d n k =>
    cases h
    exact (Int.sub_self _).symm
  | case5 | case6 | case8 => cases h
  | case2 d n k r ih => rw [net_allIn_cons, net_of_ne fun _ => by decide, ih h, Int.zero_add]
  | case3 d n k r _ ih => rw [net_allIn_cons, net_of_ne fun _ => by decide, ih h, Int.zero_add]
  | case4 d n k r _ _ ih =>
    rw [net_allIn_cons, net_open, ih h]
    omega
  | case7 d n k r hd _ _ _ _ ih =>
    rw [net_allIn_cons, net_close, ih h]
    omega
  | case9 d n k c r _ _ hopen hclose _ ih => rw [net_allIn_cons, net_of_ne fun _ => ⟨hopen, hclose⟩, ih h, Int.zero_add]

/-! ## A line that it is taken out of -/

/-- A statement that begins in a line ends in it, or at its end. -/
theorem OpenStatement.partTo_stop (o : OpenStatement) (hle : start ≤ l.length) : ∃ m r, l.drop start = m ++ r ∧
    o.stop start l = start + m.length ∧ (r = [] ∨ EndsBefore m r) ∧
    net (allIn .code m) = (openBraces (o.disable start l).2 : Int) - o.depth := by
  unfold OpenStatement.stop OpenStatement.disable
  cases hend : statementEnd o.depth o.parens start (l.drop start) with
  | ok last =>
    obtain ⟨m, r, hdrop, hlast, hbefore, hnet⟩ := partTo_of_statementEnd hend
    refine ⟨m, r, hdrop, hlast, .inr hbefore, ?_⟩
    rw [hnet, openBraces]
    omega
  | error left =>
    obtain ⟨d, n⟩ := left
    have hopen : openBraces (if d = 0 && n = 0 then none else some { o with depth := d, parens := n }) = d := by
      split
      · next hnone => exact ((Bool.and_eq_true_iff.1 hnone).1 |> of_decide_eq_true).symm
      · rfl
    refine ⟨l.drop start, [], (List.append_nil _).symm, ?_, .inl rfl, ?_⟩
    · rw [List.length_drop]
      show l.length = _
      omega
    · rw [net_of_statementEnd hend]
      dsimp only
      rw [hopen]

/-- **The stretch that is taken out of use** begins where the statement does. It goes to the end of the line, or ends
with the statement, and changes the number of open braces by as much as it holds. -/
theorem OpenStatement.disable_parts (o : OpenStatement) (hle : start ≤ l.length) :
    l.take start ++ (slice l start (o.stop start l) ++ l.drop (o.stop start l)) = l ∧
    start + (slice l start (o.stop start l)).length = o.stop start l ∧
    (l.drop (o.stop start l) = [] ∨ EndsBefore (slice l start (o.stop start l)) (l.drop (o.stop start l))) ∧
    net (allIn .code (slice l start (o.stop start l))) = (openBraces (o.disable start l).2 : Int) - o.depth := by
  obtain ⟨m, r, hdrop, hstop, hend, hnet⟩ := o.partTo_stop hle
  have hbehind : l.drop (o.stop start l) = r := by rw [hstop, ← List.drop_drop, hdrop, List.drop_left]
  have hslice : slice l start (o.stop start l) = m := by
    rw [slice, hdrop, hstop, Nat.add_sub_cancel_left, List.take_left]
  rw [hbehind, hslice, ← hdrop, List.take_append_drop]
  exact ⟨rfl, hstop.symm, hend, hnet⟩

end Flatsheet.Repair
