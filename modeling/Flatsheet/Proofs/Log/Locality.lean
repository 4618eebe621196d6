import Flatsheet.Log.CompileError
import Mathlib.Data.List.Forall2
import Mathlib.Data.List.Induction

/-!
# `Proofs.Log.Locality` — the errors of a log are those of its windows

A claimed line of a log makes an error, and the lines behind it, up to the next claimed one and at most five of them,
can tell more about it. So the errors of a log are those that its windows tell of (`readAll_eq`), and each
depends on its own window only.

* **Repetitions.** Of the errors about the same thing only the first is kept. `distinct` compares each error with those
  kept so far, `firsts` with all before it, which comes to the same (`distinct_eq_firsts`).
* **Windows.** `windowAt` cuts a window out of the log by the numbers of its lines, the parser by the lines themselves
  (`windowAt_cons`).
* **Logs put together.** No window of the first log reaches into the second one if the last five lines of the first are
  not claimed, or the first line of the second is (`readAll_append`).
-/

namespace Flatsheet.Log

open Text CompileError

variable {e e' : CompileError} {es found a b : List CompileError} {l : Text} {log rest more w : List Text} {i : Nat}

/-! ## Repetitions -/

/-- What an error is about. -/
def about (e : CompileError) : ErrorKind × Text × Option Text × Option Nat := (e.kind, e.name, e.file, e.line)

theorem same_iff : e.same e' = true ↔ about e = about e' := by
  simp [CompileError.same, about, and_assoc]

/-- One of the errors is about the same thing. -/
theorem any_same_iff : es.any (·.same e) = true ↔ about e ∈ es.map about := by
  simp [List.any_eq_true, same_iff]

/-- **The first errors about each thing**: those that are the same as none before them. -/
def firsts (es : List CompileError) : List CompileError :=
  es.zipIdx.filterMap fun (e, k) => if (es.take k).any (·.same e) then none else some e

theorem firsts_concat (es : List CompileError) (e : CompileError) :
    firsts (es ++ [e]) = firsts es ++ if es.any (·.same e) then [] else [e] := by
  have hbefore : ∀ p ∈ es.zipIdx, (if ((es ++ [e]).take p.2).any (·.same p.1) then none else some p.1) =
      if (es.take p.2).any (·.same p.1) then none else some p.1 := by
    intro p hp
    have hlt := (List.getElem?_eq_some_iff.1 (List.mem_zipIdx_iff_getElem?.1 hp)).1
    rw [List.take_append_of_le_length (Nat.le_of_lt hlt)]
  rw [firsts, List.zipIdx_append, List.filterMap_append, List.filterMap_congr hbefore, ← firsts]
  congr 1
  simp only [List.zipIdx_singleton, List.filterMap_cons, List.filterMap_nil, Nat.zero_add, List.take_left]
  cases es.any (·.same e) <;> rfl

theorem distinct_concat (es : List CompileError) (e : CompileError) :
    distinct (es ++ [e]) = distinct es ++ if (distinct es).any (·.same e) then [] else [e] := by
  rw [distinct, List.foldl_append, List.foldl_cons, List.foldl_nil, ← distinct]
  split
  · exact (List.append_nil _).symm
  · rfl

/-- What errors are about is kept. -/
theorem any_distinct (es : List CompileError) (e : CompileError) :
    (distinct es).any (·.same e) = es.any (·.same e) := by
  induction es using List.reverseRecOn with
  | nil => rfl
  | append_singleton es d ih =>
    rw [distinct_concat, List.any_append, List.any_append, ih]
    split
    · next hknown =>
      -- the last error is about the same thing as one of those before
      rw [List.any_nil, Bool.or_false]
      by_cases hsame : d.same e = true
      · rw [any_same_iff, same_iff.1 hsame, ← any_same_iff, ih] at hknown
        rw [hknown, Bool.true_or]
      · simp [hsame]
    · rfl

/-- **Comparing with the errors kept is comparing with all before.** -/
theorem distinct_eq_firsts (es : List CompileError) : distinct es = firsts es := by
  induction es using List.reverseRecOn with
  | nil => rfl
  | append_singleton es e ih => rw [distinct_concat, firsts_concat, any_distinct, ih]

/-- No two of them are about the same thing. -/
theorem nodup_distinct (es : List CompileError) : ((distinct es).map about).Nodup := by
  induction es using List.reverseRecOn with
  | nil => exact List.nodup_nil
  | append_singleton es e ih =>
    rw [distinct_concat]
    split
    · rwa [List.append_nil]
    · next hnew =>
      rw [any_same_iff] at hnew
      rw [List.map_append, List.map_singleton]
      refine List.nodup_append.2 ⟨ih, by simp, fun x hx y hy => ?_⟩
      rw [List.mem_singleton.1 hy]
      rintro rfl
      exact hnew hx

/-- Each error is about the same thing as one of them. -/
theorem exists_distinct (h : e ∈ es) : ∃ e' ∈ distinct es, about e' = about e := by
  have hany : (distinct es).any (·.same e) = true := by
    rw [any_distinct]
    exact List.any_eq_true.2 ⟨e, h, same_iff.2 rfl⟩
  obtain ⟨e', he', hsame⟩ := List.any_eq_true.1 hany
  exact ⟨e', he', same_iff.1 hsame⟩

theorem distinct_distinct (es : List CompileError) : distinct (distinct es) = distinct es := by
  induction es using List.reverseRecOn with
  | nil => rfl
  | append_singleton es e ih =>
    rw [distinct_concat]
    split
    · rwa [List.append_nil]
    · next hnew => rw [distinct_concat, ih, if_neg hnew]

/-- **The first errors of two lists are the first of their first errors.** -/
theorem distinct_append (a b : List CompileError) : distinct (distinct a ++ distinct b) = distinct (a ++ b) := by
  induction b using List.reverseRecOn with
  | nil =>
    show distinct (distinct a ++ []) = distinct (a ++ [])
    rw [List.append_nil, List.append_nil, distinct_distinct]
  | append_singleton b e ih =>
    rw [distinct_concat b, ← List.append_assoc a, distinct_concat (a ++ b), any_distinct, any_distinct, ← ih]
    by_cases hb : b.any (·.same e) = true
    · rw [if_pos hb, List.append_nil, List.any_append, hb, Bool.or_true, if_pos rfl, List.append_nil]
    · rw [if_neg hb, ← List.append_assoc, distinct_concat, any_distinct, List.any_append, any_distinct, any_distinct,
        List.any_append]

/-! ## Windows -/

/-- A pattern claims the line. -/
def claimed (l : Text) : Bool := (claim? l).isSome

/-- The number of the next claimed line, or of the lines if there is none. -/
def nextClaimed (log : List Text) (i : Nat) : Nat := i + 1 + (log.drop (i + 1)).findIdx claimed

/-- **The window of a line**: it and the five lines behind it, but not the next claimed line, nor any behind that. -/
def windowAt (log : List Text) (i : Nat) : List Text :=
  (log.take (min (i + 5) (nextClaimed log i - 1) + 1)).drop i

/-- The numbers of the claimed lines. -/
def claimedLines (log : List Text) : List Nat := (List.range log.length).filter fun i => log[i]?.any claimed

/-- **A window tells of an error**, which its first line makes. -/
def Tells (w : List Text) (e : CompileError) : Prop :=
  ∃ l more c, w = l :: more ∧ claim? l = some c ∧ CompileError.read c l more = .ok e

/-- The first line of a window that names a place has a line number that does not fit into 64 bits. -/
def Overflows (w : List Text) : Prop := ∃ place, w.findSome? locate? = some place ∧ largestLine < place.2

theorem overflows_iff : Overflows w ↔
    (w.findSome? locate?).any (fun place => decide (largestLine < place.2)) = true := by
  simp [Overflows, Option.any_eq_true]

instance (w : List Text) : Decidable (Overflows w) := decidable_of_iff' _ overflows_iff

/-- A window tells of one error at most. -/
theorem Tells.unique (h : Tells w e) (h' : Tells w e') : e = e' := by
  obtain ⟨l, more, c, rfl, hclaim, hread⟩ := h
  obtain ⟨l', more', c', hw, hclaim', hread'⟩ := h'
  obtain ⟨rfl, rfl⟩ := List.cons.inj hw
  obtain rfl := Option.some.inj (hclaim.symm.trans hclaim')
  exact Except.ok.inj (hread.symm.trans hread')

/-- **The parser cuts out the window by its lines.** -/
theorem windowAt_zero (l : Text) (rest : List Text) : windowAt (l :: rest) 0 = l :: window rest := by
  have hpattern : (fun l => !(claim? l).isNone) = claimed := by
    funext l
    rw [claimed, Option.not_isNone]
  have hwindow : window rest = rest.take (min 5 (rest.findIdx claimed)) := by
    rw [window, List.takeWhile_eq_take_findIdx_not, hpattern, List.findIdx_take, List.take_take, lookahead]
    congr 1
    omega
  have hstop : nextClaimed (l :: rest) 0 - 1 = rest.findIdx claimed := by
    rw [nextClaimed, Nat.add_sub_cancel_left]
    rfl
  rw [windowAt, hstop, hwindow, Nat.zero_add, List.take_succ_cons]
  rfl

theorem windowAt_succ (l : Text) (rest : List Text) (i : Nat) : windowAt (l :: rest) (i + 1) = windowAt rest i := by
  have hstop : min (i + 1 + 5) (nextClaimed (l :: rest) (i + 1) - 1) = min (i + 5) (nextClaimed rest i - 1) + 1 := by
    rw [nextClaimed, nextClaimed, List.drop_succ_cons]
    omega
  rw [windowAt, windowAt, hstop, List.take_succ_cons, List.drop_succ_cons]

theorem claimedLines_cons (l : Text) (rest : List Text) :
    claimedLines (l :: rest) = (if claimed l then [0] else []) ++ (claimedLines rest).map (· + 1) := by
  rw [claimedLines, List.length_cons, List.range_succ_eq_map, List.filter_cons, List.filter_map]
  show (if claimed l then 0 :: _ else _) = _
  split <;> rfl

/-- The windows of the claimed lines, in order. -/
def windows (log : List Text) : List (List Text) := (claimedLines log).map (windowAt log)

theorem windows_cons (l : Text) (rest : List Text) :
    windows (l :: rest) = (if claimed l then [l :: window rest] else []) ++ windows rest := by
  have hlater : ((claimedLines rest).map (· + 1)).map (windowAt (l :: rest)) = windows rest := by
    rw [List.map_map]
    exact List.map_congr_left fun i _ => windowAt_succ l rest i
  rw [windows, claimedLines_cons, List.map_append, hlater]
  split
  · rw [List.map_singleton, windowAt_zero]
  · rfl

/-! ## The errors of the windows -/

/-- A claimed line makes an error, unless the window has a line number that does not fit. -/
theorem read_eq (c : Claim) (l : Text) (more : List Text) :
    (Overflows (l :: more) ∧ CompileError.read c l more = .error .lineNumberOverflow) ∨
      (¬ Overflows (l :: more) ∧ ∃ e, CompileError.read c l more = .ok e) := by
  by_cases hoverflow : Overflows (l :: more)
  · exact .inl ⟨hoverflow, if_pos (overflows_iff.1 hoverflow)⟩
  · exact .inr ⟨hoverflow, _, if_neg fun h => hoverflow (overflows_iff.2 h)⟩

theorem readAll_cons_of_claimed {c : Claim} (h : claim? l = some c) (rest : List Text) :
    readAll (l :: rest) = (CompileError.read c l (window rest)).bind fun e => (readAll rest).map (e :: ·) := by
  rw [readAll, h]
  dsimp only
  cases CompileError.read c l (window rest) with
  | error fault => rfl
  | ok e => cases readAll rest <;> rfl

/-- **The errors of a log are those that its windows tell of**, unless a line number in one of them does not fit. -/
theorem readAll_eq (log : List Text) :
    ((∃ w ∈ windows log, Overflows w) ∧ readAll log = .error .lineNumberOverflow) ∨
      ((∀ w ∈ windows log, ¬ Overflows w) ∧
        ∃ found, readAll log = .ok found ∧ List.Forall₂ Tells (windows log) found) := by
  induction log with
  | nil => exact .inr ⟨nofun, [], rfl, .nil⟩
  | cons l rest ih =>
    rw [windows_cons]
    cases hclaim : claim? l with
    | none =>
      have hnot : claimed l = false := by rw [claimed, hclaim]; rfl
      rw [readAll, hclaim, hnot]
      exact ih
    | some c =>
      have hyes : claimed l = true := by rw [claimed, hclaim]; rfl
      rw [readAll_cons_of_claimed hclaim, if_pos hyes, List.singleton_append]
      -- the first window decides about itself, the rest of the log about the others
      rcases read_eq c l (window rest) with ⟨hoverflow, hread⟩ | ⟨hfits, e, hread⟩
      · refine .inl ⟨⟨_, List.mem_cons_self, hoverflow⟩, ?_⟩
        rw [hread]
        rfl
      · rw [hread]
        rcases ih with ⟨⟨w, hw, hoverflow⟩, hrest⟩ | ⟨hfit, found, hrest, htell⟩
        · refine .inl ⟨⟨w, List.mem_cons_of_mem _ hw, hoverflow⟩, ?_⟩
          rw [hrest]
          rfl
        · refine .inr ⟨?_, e :: found, ?_, .cons ⟨l, _, c, rfl, hclaim, hread⟩ htell⟩
          · intro w hw
            rcases List.mem_cons.1 hw with rfl | hw
            · exact hfits
            · exact hfit w hw
          · rw [hrest]
            rfl

/-! ## Logs put together -/

/-- **No window reaches from the first log into the second one.** -/
def Parts (log more : List Text) : Prop :=
  (∀ l ∈ log.drop (log.length - 5), claimed l = false) ∨ more.head?.any claimed = true

instance (log more : List Text) : Decidable (Parts log more) :=
  inferInstanceAs (Decidable ((∀ l ∈ log.drop (log.length - 5), claimed l = false) ∨ more.head?.any claimed = true))

theorem Parts.tail (h : Parts (l :: rest) more) : Parts rest more := by
  refine h.imp_left fun hlast l' hl' => hlast l' ?_
  rw [List.length_cons]
  by_cases hshort : rest.length ≤ 4
  · have hall : rest.length + 1 - 5 = 0 := by omega
    rw [hall, List.drop_zero]
    exact List.mem_cons_of_mem _ (List.mem_of_mem_drop hl')
  · obtain ⟨n, hn⟩ : ∃ n, rest.length = n + 5 := ⟨rest.length - 5, by omega⟩
    rw [hn] at hl' ⊢
    exact hl'

/-- The window of a claimed line stays within the first log. -/
theorem Parts.window_append (h : Parts (l :: rest) more) (hclaimed : claimed l = true) :
    window (rest ++ more) = window rest := by
  by_cases hlong : 5 ≤ rest.length
  · rw [window, window, lookahead, List.take_append_of_le_length hlong]
  · rcases h with hlast | hfirst
    · -- the line itself is one of the last five
      have hall : (l :: rest).length - 5 = 0 := by
        rw [List.length_cons]
        omega
      rw [hall, List.drop_zero] at hlast
      rw [hlast l List.mem_cons_self] at hclaimed
      cases hclaimed
    · obtain ⟨m, more, rfl⟩ : ∃ m more', more = m :: more' := by
        cases more with
        | nil => cases hfirst
        | cons m more => exact ⟨m, more, rfl⟩
      obtain ⟨k, hk⟩ : ∃ k, 5 - rest.length = k + 1 := ⟨4 - rest.length, by omega⟩
      have hstop : (claim? m).isNone = false := by
        rw [← Option.not_isSome, Bool.not_eq_false']
        exact hfirst
      rw [window, window, lookahead, List.take_append, hk, List.take_succ_cons, List.take_of_length_le (by omega),
        List.takeWhile_append, List.takeWhile_cons, hstop]
      simp only [Bool.false_eq_true, if_false, List.append_nil]
      split
      · next hall =>
        exact (List.IsPrefix.eq_of_length (List.takeWhile_prefix _) hall).symm
      · rfl

theorem readAll_append (h : Parts log more) :
    readAll (log ++ more) = (readAll log).bind fun a => (readAll more).map (a ++ ·) := by
  induction log with
  | nil =>
    show readAll more = (readAll more).map ([] ++ ·)
    cases readAll more <;> rfl
  | cons l rest ih =>
    rw [List.cons_append]
    cases hclaim : claim? l with
    | none =>
      rw [readAll, readAll, hclaim]
      exact ih h.tail
    | some c =>
      have hyes : claimed l = true := by rw [claimed, hclaim]; rfl
      rw [readAll_cons_of_claimed hclaim, readAll_cons_of_claimed hclaim, h.window_append hyes, ih h.tail]
      cases CompileError.read c l (window rest) with
      | error fault => rfl
      | ok e =>
        cases readAll rest with
        | error fault => rfl
        | ok a => cases readAll more <;> rfl

/-- **Parsing a log is local and free of repetitions.** It fails exactly if, in the window of a claimed line, the first
line that names a place has a number that does not fit into 64 bits. Otherwise the result has the errors that the
windows of the claimed lines tell of, one for each in order, but for those that are about the same thing as one before;
no two of the result are. So the errors of two logs put together are those of each, without repetitions, if no window
of the first log reaches into the second one. -/
theorem parse_local (log : List Text) :
    (parse log = .error .lineNumberOverflow ↔ ∃ i ∈ claimedLines log, Overflows (windowAt log i)) ∧
    ((∀ i ∈ claimedLines log, ¬ Overflows (windowAt log i)) → ∃ found,
      List.Forall₂ (fun i e => Tells (windowAt log i) e) (claimedLines log) found ∧ parse log = .ok (firsts found) ∧
      ((firsts found).map about).Nodup ∧ ∀ e ∈ found, ∃ e' ∈ firsts found, about e' = about e) ∧
    (∀ w e e', Tells w e → Tells w e' → e = e') ∧
    ∀ more, Parts log more → parse (log ++ more) = do
      let errors ← parse log
      let others ← parse more
      return firsts (errors ++ others) := by
  have hwindows : ∀ {p : List Text → Prop}, (∃ w ∈ windows log, p w) ↔ ∃ i ∈ claimedLines log, p (windowAt log i) := by
    intro p
    simp [windows]
  refine ⟨?_, ?_, fun w e e' => Tells.unique, ?_⟩
  · rw [← hwindows, parse]
    rcases readAll_eq log with ⟨hoverflow, hread⟩ | ⟨hfits, found, hread, -⟩
    · rw [hread]
      exact iff_of_true rfl hoverflow
    · rw [hread]
      refine iff_of_false nofun ?_
      rintro ⟨w, hw, hoverflow⟩
      exact hfits w hw hoverflow
  · intro hfits
    rcases readAll_eq log with ⟨hoverflow, -⟩ | ⟨-, found, hread, htell⟩
    · obtain ⟨i, hi, hoverflow⟩ := hwindows.1 hoverflow
      exact absurd hoverflow (hfits i hi)
    · refine ⟨found, List.forall₂_map_left_iff.1 htell, ?_⟩
      rw [parse, hread, ← distinct_eq_firsts]
      exact ⟨rfl, nodup_distinct found, fun e he => exists_distinct he⟩
  · intro more hparts
    rw [parse, parse, parse, readAll_append hparts]
    cases readAll log with
    | error fault => rfl
    | ok a =>
      cases readAll more with
      | error fault => rfl
      | ok b =>
        show Except.ok (distinct (a ++ b)) = Except.ok (firsts (distinct a ++ distinct b))
        rw [← distinct_eq_firsts, distinct_append]

/-- A log with three claimed lines. The first one and the last one are about the same thing. -/
def watchLog : List Text :=
  ["Error: Undefined variable: '$brand'.".toList, "  on line 12 of css/home.scss".toList,
    "Error: no mixin named card".toList, "  css/home.scss 3:5  root stylesheet".toList,
    "Undefined variable.".toList, "  color: $brand; on line 12 of home.scss".toList]

theorem watchLog_parsed :
    (∀ i ∈ claimedLines watchLog, ¬ Overflows (windowAt watchLog i)) ∧
    (∃ found, List.Forall₂ (fun i e => Tells (windowAt watchLog i) e) [0, 2, 4] found ∧
      (firsts found).map about = [(.undefinedVariable, "brand".toList, some "home.scss".toList, some 12),
        (.undefinedMixin, "card".toList, some "home.scss".toList, some 3)]) ∧
    Parts (watchLog.take 2) (watchLog.drop 2) ∧
    parse watchLog = do
      let errors ← parse (watchLog.take 2)
      let others ← parse (watchLog.drop 2)
      return firsts (errors ++ others) := by
  have hfits : ∀ i ∈ claimedLines watchLog, ¬ Overflows (windowAt watchLog i) := by decide +kernel
  have hparts : Parts (watchLog.take 2) (watchLog.drop 2) := by decide +kernel
  have hlines : claimedLines watchLog = [0, 2, 4] := by decide +kernel
  obtain ⟨-, hparsed, -, -⟩ := parse_local watchLog
  obtain ⟨-, -, -, happend⟩ := parse_local (watchLog.take 2)
  obtain ⟨found, htell, hparse, -⟩ := hparsed hfits
  have habout : ((parse watchLog).toOption.getD []).map about =
      [(.undefinedVariable, "brand".toList, some "home.scss".toList, some 12),
        (.undefinedMixin, "card".toList, some "home.scss".toList, some 3)] := by decide +kernel
  rw [hparse] at habout
  rw [hlines] at htell
  exact ⟨hfits, ⟨found, htell, habout⟩, hparts, happend _ hparts⟩

end Flatsheet.Log
