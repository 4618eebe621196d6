import Flatsheet.Proofs.Repair.EditScript
import Flatsheet.Proofs.Text.LineZones

/-!
# `Proofs.Repair.ClosedBlocks` — closing blocks comes to an end

A syntax error about a block that is not closed is repaired by lines of one brace at the end of the file. How they are
read depends on the state in which the text ends. A string or a line comment ends with the last line, so the braces are
code, and the blocks are closed (`braceBalance_closed`); only a block comment would take them in. Repairing the error
once more then changes nothing (`closing_blocks_converges`).
-/

namespace Flatsheet.Repair

open Text Log Mask

variable {c : Candidate} {e : CompileError} {files : List Candidate}

/-- The error is repaired in the file: it names the file, or none of the files. -/
def InScope (e : CompileError) (files : List Candidate) (c : Candidate) : Bool :=
  !files.any (names e) || names e c

/-- The scope of an error stays while the files keep what it names them by. -/
theorem inScope_map {g : Candidate → Candidate} (hnames : ∀ d, names e (g d) = names e d) (files : List Candidate)
    (c : Candidate) : InScope e (files.map g) (g c) = InScope e files c := by
  have hany : (files.map g).any (names e) = files.any (names e) := by
    rw [List.any_map]
    exact congrArg files.any (funext hnames)
  rw [InScope, hany, hnames]
  rfl

/-- A repair of the files in scope, file by file. -/
theorem onFiles_eq (inScope : Candidate → Bool) (repair : Candidate → Candidate × List Alteration)
    (files : List Candidate) : onFiles inScope repair files =
      (files.map fun c => if inScope c then (repair c).1 else c,
        files.flatMap fun c => if inScope c then (repair c).2 else []) := by
  unfold onFiles
  simp only [List.map_map, List.flatMap_map]
  have hfirst : ∀ c, (if inScope c then repair c else (c, [])).1 = if inScope c then (repair c).1 else c := by
    intro c
    split <;> rfl
  have hsecond : ∀ c, (if inScope c then repair c else (c, [])).2 = if inScope c then (repair c).2 else [] := by
    intro c
    split <;> rfl
  exact Prod.ext (List.map_congr_left fun c _ => hfirst c) (congrArg (List.flatMap · files) (funext hsecond))

namespace Candidate

/-- The lines of the file but for an empty line at the end. -/
def body (c : Candidate) : List Text := if c.lines.getLast? = some [] then c.lines.dropLast else c.lines

/-- The empty line at the end of the file, if there is one. -/
def ending (c : Candidate) : List Text := if c.lines.getLast? = some [] then [[]] else []

/-- The text ends inside a block comment. -/
def EndsInComment (c : Candidate) : Prop := State.after none .code none c.content = .blockComment

instance (c : Candidate) : Decidable c.EndsInComment :=
  inferInstanceAs (Decidable (State.after none .code none c.content = .blockComment))

/-- The file with lines of one brace for the blocks that are left open. -/
def closed (c : Candidate) : Candidate :=
  if 0 < c.braceBalance then
    { c with lines := c.body ++ List.replicate c.braceBalance.toNat ['}'] ++ c.ending, dirty := true }
  else c

/-- The alterations that these lines are. -/
def closingBraces (c : Candidate) : List Alteration :=
  (insertions c.body.length c.braceBalance.toNat ['}'] "appended missing '\x7d'".toList).map (⟨c.name, ·⟩)

theorem body_append_ending (c : Candidate) : c.body ++ c.ending = c.lines := by
  unfold body ending
  split
  · next hend =>
    obtain ⟨ls, hls⟩ := List.getLast?_eq_some_iff.1 hend
    rw [hls, List.dropLast_concat]
  · exact List.append_nil _

/-- **Closing blocks** puts the lines of braces before the empty line at the end. -/
theorem closeBlocks_eq (c : Candidate) : c.closeBlocks = (c.closed, c.closingBraces) := by
  have hkept : (if c.lines.getLast? = some [] then c.lines.length - 1 else c.lines.length) = c.body.length := by
    unfold body
    split
    · exact List.length_dropLast.symm
    · rfl
  have htake : c.lines.take c.body.length = c.body := by
    rw [← c.body_append_ending]
    exact List.take_left
  have hdrop : c.lines.drop c.body.length = c.ending := by
    rw [← c.body_append_ending]
    exact List.drop_left
  rw [closeBlocks, hkept, htake, hdrop]
  by_cases hopen : 0 < c.braceBalance
  · have hsome : (insertions c.body.length c.braceBalance.toNat ['}'] "appended missing '\x7d'".toList).isEmpty =
        false := by
      simp only [insertions, List.isEmpty_eq_false_iff, ne_eq, List.map_eq_nil_iff, List.range_eq_nil]
      omega
    rw [closed, if_pos hopen]
    show c.edited _ (insertions _ _ _ _) = _
    rw [edited, hsome, Bool.not_false, Bool.or_true]
    rfl
  · have hnone : c.braceBalance.toNat = 0 := by omega
    rw [closed, if_neg hopen, closingBraces, hnone]
    simp [edited, insertions, body_append_ending]

theorem length_closingBraces (c : Candidate) : c.closingBraces.length = c.braceBalance.toNat := by
  simp [closingBraces, insertions]

theorem braceBalance_eq_net (c : Candidate) : c.braceBalance = net (zones c.content) := by
  rw [braceBalance, net, ← count_codeMask (by decide), ← count_codeMask (by decide)]

end Candidate

/-! ## The text with the braces -/

/-- Lines of braces are code. -/
theorem plain_braces (n : Nat) : Plain (ended (List.replicate n ['}'])) := by
  intro x hx
  obtain ⟨l, hl, hx⟩ := List.mem_flatMap.1 hx
  rw [List.eq_of_mem_replicate hl, List.singleton_append, List.mem_cons, List.mem_singleton] at hx
  rcases hx with rfl | rfl <;> decide

theorem net_braces (n : Nat) : net ((ended (List.replicate n ['}'])).map (·, Zone.code)) = -n := by
  induction n with
  | zero => rfl
  | succ n ih =>
    have hline : net ((['}'] ++ ['\n']).map (·, Zone.code)) = -1 := by decide
    rw [List.replicate_succ, ended, List.flatMap_cons, ← ended, List.map_append, net_append, hline, ih]
    omega

theorem inert_brace : Inert (some '}') := ⟨by decide, by decide⟩

/-- **Behind lines that leave no comment open, lines of braces count as they are.** -/
theorem net_append_braces {ls : List Text} (h : State.after none .code none (ended ls) ≠ .blockComment) (n : Nat) :
    net (zones (ended ls ++ ended (List.replicate n ['}']))) = net (zones (ended ls)) - n := by
  cases n with
  | zero => simp [ended]
  | succ n =>
    have hhead : (ended (List.replicate (n + 1) ['}'])).head? = some '}' := rfl
    -- a brace is as good as the end of the text
    have hfront : zoned none .code (some '}') (ended ls) = zones (ended ls) :=
      zoned_of_inert quoted_code inert_brace inert_none _
    have hcode : State.after none .code (some '}') (ended ls) = .code := by
      have hbegins : Begins (State.after none .code none (ended ls)) := Begins.after_ended (.inl rfl) ls
      rcases hbegins with hcode | hcomment
      · exact after_code_of_inert hcode inert_brace
      · exact absurd hcomment h
    rw [zones, zoned_append, hhead, Option.some_or, hfront, hcode, zoned_of_plain (plain_braces _), net_append,
      net_braces]
    rfl

theorem content_lines (c : Candidate) : c.lines = [] ∨ ended c.lines = c.content ++ ['\n'] := by
  by_cases hnil : c.lines = []
  · exact .inl hnil
  · exact .inr (ended_eq_unlines hnil)

/-- The state behind the lines of a file. -/
theorem after_lines (h : ¬ c.EndsInComment) : State.after none .code none (ended c.body) ≠ .blockComment := by
  unfold Candidate.body
  split
  · next hend =>
    obtain ⟨ls, hls⟩ := List.getLast?_eq_some_iff.1 hend
    have hcontent : c.content = ended ls := by rw [Candidate.content, hls, unlines_concat_nil]
    rwa [hls, List.dropLast_concat, ← hcontent]
  · rcases content_lines c with hnil | hlines
    · rw [hnil]
      decide
    · rw [hlines]
      rcases Begins.after_feed (.inl rfl) c.content none with hcomment | hcode
      · rw [Candidate.EndsInComment, after_none] at h
        exact absurd hcomment h
      · rw [hcode]
        decide

namespace Candidate

/-- The braces of a file are those of its lines, each with a line feed. -/
theorem braceBalance_eq_body (c : Candidate) : c.braceBalance = net (zones (ended c.body)) := by
  rw [braceBalance_eq_net]
  unfold body
  split
  · next hend =>
    obtain ⟨ls, hls⟩ := List.getLast?_eq_some_iff.1 hend
    rw [content, hls, unlines_concat_nil, List.dropLast_concat]
  · rcases content_lines c with hnil | hlines
    · rw [content, hnil]
      rfl
    · rw [hlines, net_zones_concat]

theorem body_closed (h : 0 < c.braceBalance) :
    c.closed.body = c.body ++ List.replicate c.braceBalance.toNat ['}'] := by
  obtain ⟨n, hn⟩ : ∃ n, c.braceBalance.toNat = n + 1 := ⟨c.braceBalance.toNat - 1, by omega⟩
  rw [closed, if_pos h, hn]
  unfold body ending
  dsimp only
  by_cases hend : c.lines.getLast? = some []
  · simp only [if_pos hend, List.getLast?_concat, List.dropLast_concat, if_true]
  · have hlast : (c.lines ++ List.replicate (n + 1) ['}']).getLast? ≠ some [] := by
      rw [List.replicate_succ', ← List.append_assoc, List.getLast?_concat]
      decide
    simp only [if_neg hend, List.append_nil, if_neg hlast]

/-- **Closing blocks leaves no block open**, if the text does not end inside a comment. -/
theorem braceBalance_closed (hends : ¬ c.EndsInComment) (h : 0 < c.braceBalance) : c.closed.braceBalance = 0 := by
  have hbody := c.braceBalance_eq_body
  rw [braceBalance_eq_body, body_closed h, ended_append, net_append_braces (after_lines hends), ← hbody]
  omega

theorem closed_of_le (h : c.braceBalance ≤ 0) : c.closed = c := if_neg (Int.not_lt.2 h)

theorem closingBraces_of_le (h : c.braceBalance ≤ 0) : c.closingBraces = [] := by
  rw [← List.length_eq_zero_iff, length_closingBraces]
  omega

/-- Behind closing blocks no block is open. -/
theorem braceBalance_closed_le (hends : ¬ c.EndsInComment) : c.closed.braceBalance ≤ 0 := by
  by_cases hopen : 0 < c.braceBalance
  · exact Int.le_of_eq (braceBalance_closed hends hopen)
  · rw [closed_of_le (Int.not_lt.1 hopen)]
    exact Int.not_lt.1 hopen

theorem names_closed (e : CompileError) (c : Candidate) : names e c.closed = names e c := by
  unfold closed
  split <;> rfl

end Candidate

/-- Lines of braces are put behind a text. -/
theorem unlines_append_braces (ls : List Text) (n : Nat) :
    ∃ w, unlines (ls ++ List.replicate n ['}']) = unlines ls ++ w ∧ Inert w.head? := by
  cases n with
  | zero => exact ⟨[], by simp, inert_none⟩
  | succ n =>
    by_cases hnil : ls = []
    · refine ⟨unlines (List.replicate (n + 1) ['}']), by rw [hnil]; rfl, ?_⟩
      cases n <;> exact inert_brace
    · refine ⟨'\n' :: unlines (List.replicate (n + 1) ['}']), ?_, inert_of_blank rfl⟩
      rw [← List.append_left_inj ['\n'], ← ended_eq_unlines (by simp), ended_append, ended_eq_unlines hnil,
        ended_eq_unlines (by simp)]
      simp

/-- **Closing blocks puts text behind that of the file.** -/
theorem Candidate.content_closed (c : Candidate) : ∃ w, c.closed.content = c.content ++ w ∧ Inert w.head? := by
  unfold closed
  split
  · unfold content body ending
    dsimp only
    split
    · next hend =>
      obtain ⟨ls, hls⟩ := List.getLast?_eq_some_iff.1 hend
      refine ⟨ended (List.replicate c.braceBalance.toNat ['}']), ?_, ?_⟩
      · rw [hls, List.dropLast_concat, unlines_concat_nil, unlines_concat_nil, ended_append]
      · cases c.braceBalance.toNat with
        | zero => exact inert_none
        | succ n => exact inert_brace
    · rw [List.append_nil]
      exact unlines_append_braces c.lines _
  · exact ⟨[], (List.append_nil _).symm, inert_none⟩

/-! ## The repair of the error -/

/-- The file after the repair of the error. -/
def closedIn (e : CompileError) (files : List Candidate) (c : Candidate) : Candidate :=
  if InScope e files c then c.closed else c

/-- The scope of the error stays. -/
theorem inScope_closedIn (e : CompileError) (files : List Candidate) (c : Candidate) :
    InScope e (files.map (closedIn e files)) (closedIn e files c) = InScope e files c := by
  apply inScope_map
  intro d
  unfold closedIn
  split
  · exact d.names_closed e
  · rfl

/-- **The repair of a block that is not closed**, file by file. -/
theorem fix_block (hkind : e.kind = .syntaxError) (hblock : isBlockError e = true) (files : List Candidate) :
    fix e files = (files.map (closedIn e files),
      files.flatMap fun c => if InScope e files c then c.closingBraces else []) := by
  have hbraces : ∀ e' : CompileError, e'.name = e.name → e'.raw = e.raw → fixSyntax e' = Candidate.closeBlocks := by
    intro e' hname hraw
    have hblock' : isBlockError e' = true := by
      unfold isBlockError at hblock ⊢
      rwa [hname, hraw]
    funext c
    rw [fixSyntax, if_pos hblock']
  simp only [fix]
  generalize hline : (if files.any (names e) || files.length = 1 then e else { e with line := none }) = e'
  have hkept : e'.kind = e.kind ∧ e'.name = e.name ∧ e'.raw = e.raw := by
    rw [← hline]
    split <;> exact ⟨rfl, rfl, rfl⟩
  rw [hkept.1, hkind]
  dsimp only
  rw [hbraces e' hkept.2.1 hkept.2.2]
  show onFiles (InScope e files) Candidate.closeBlocks files = _
  rw [onFiles_eq]
  simp only [Candidate.closeBlocks_eq]
  rfl

/-- **Closing blocks converges.** The repair of a syntax error about a block that is not closed goes through the files
in scope. In each whose text does not end inside a block comment, it puts in as many lines of one brace as there are
blocks open, before the empty line at the end of the file if there is one, puts each of them on record, and no block is
left open; where none is open, the file stays as it is. The same error once more changes nothing. -/
theorem closing_blocks_converges (e : CompileError) (files : List Candidate) (hkind : e.kind = .syntaxError)
    (hblock : e.name = ['}'] ∨ has (lower e.raw) "unclosed block".toList = true) :
    (fix e files).2 = (files.flatMap fun c => if InScope e files c then c.closingBraces else []) ∧
    (∀ (i : Nat) (c : Candidate), files[i]? = some c → InScope e files c = true → ¬ c.EndsInComment →
      ∃ c', (fix e files).1[i]? = some c' ∧
        (0 < c.braceBalance →
          c' = { c with
            lines := c.body ++ List.replicate c.braceBalance.toNat ['}'] ++ c.ending, dirty := true } ∧
          c.closingBraces.length = c.braceBalance ∧ c'.braceBalance = 0) ∧
        (c.braceBalance ≤ 0 → c' = c ∧ c.closingBraces = []) ∧
        InScope e (fix e files).1 c' = true ∧ (fix e (fix e files).1).1[i]? = some c' ∧ c'.closingBraces = []) ∧
    ((∀ c ∈ files, InScope e files c = true → ¬ c.EndsInComment) →
      fix e (fix e files).1 = ((fix e files).1, [])) := by
  have herror : isBlockError e = true := by simpa [isBlockError] using hblock
  have hfix := fix_block hkind herror
  -- a file that is out of scope stays out of it, and one in scope has no block left to close
  have hidle : ∀ c, (InScope e files c = true → ¬ c.EndsInComment) →
      closedIn e (files.map (closedIn e files)) (closedIn e files c) = closedIn e files c ∧
      (InScope e files c = true → c.closed.closingBraces = []) := by
    intro c hends
    rw [closedIn, inScope_closedIn]
    by_cases hscope : InScope e files c = true
    · have hle := Candidate.braceBalance_closed_le (hends hscope)
      rw [if_pos hscope, closedIn, if_pos hscope]
      exact ⟨Candidate.closed_of_le hle, fun _ => Candidate.closingBraces_of_le hle⟩
    · rw [if_neg hscope]
      exact ⟨rfl, fun hin => absurd hin hscope⟩
  refine ⟨by rw [hfix], ?_, ?_⟩
  · intro i c hi hscope hends
    obtain ⟨hsame, hnone⟩ := hidle c fun _ => hends
    have hclosed : closedIn e files c = c.closed := if_pos hscope
    refine ⟨c.closed, ?_, ?_, ?_, ?_, ?_, hnone hscope⟩
    · rw [hfix, List.getElem?_map, hi, Option.map_some, hclosed]
    · intro hopen
      refine ⟨if_pos hopen, ?_, Candidate.braceBalance_closed hends hopen⟩
      rw [Candidate.length_closingBraces]
      omega
    · intro hle
      exact ⟨Candidate.closed_of_le hle, Candidate.closingBraces_of_le hle⟩
    · rw [hfix, ← hclosed, inScope_closedIn]
      exact hscope
    · rw [hfix (fix e files).1, hfix, List.getElem?_map, List.getElem?_map, hi, Option.map_some, Option.map_some, hsame,
        hclosed]
  · intro hends
    rw [hfix (fix e files).1, hfix]
    refine Prod.ext ?_ ?_
    · rw [List.map_map]
      exact List.map_congr_left fun c hc => (hidle c (hends c hc)).1
    · refine List.flatMap_eq_nil_iff.2 fun c' hc' => ?_
      obtain ⟨c, hc, rfl⟩ := List.mem_map.1 hc'
      rw [inScope_closedIn]
      split
      · next hscope =>
        rw [closedIn, if_pos hscope]
        exact (hidle c (hends c hc)).2 hscope
      · rfl

/-- The error about a brace that is missing. -/
def braceError : CompileError := { kind := .syntaxError, name := ['}'] }

/-- A file of two open blocks, the last line of which leaves a string open, with a backslash at its end. -/
def openFile : Candidate :=
  ⟨"a.scss".toList, "a.scss".toList, "a.css".toList, [],
    [".a \x7b // base \x7b".toList, "  .b \x7b content: '\x7b \\".toList, []], false⟩

theorem openFile_closed : (fix braceError [openFile]).1.map (·.lines) =
      [[".a \x7b // base \x7b".toList, "  .b \x7b content: '\x7b \\".toList, ['}'], ['}'], []]] ∧
    fix braceError (fix braceError [openFile]).1 = ((fix braceError [openFile]).1, []) := by
  have hends : ¬ openFile.EndsInComment := by decide +kernel
  have hbalance : openFile.braceBalance = 2 := by decide +kernel
  obtain ⟨-, hfile, hagain⟩ := closing_blocks_converges braceError [openFile] rfl (.inl rfl)
  obtain ⟨c', hfirst, hopen, -⟩ := hfile 0 openFile rfl rfl hends
  obtain ⟨rfl, -⟩ := hopen (by rw [hbalance]; decide)
  refine ⟨?_, hagain ?_⟩
  · have hone : (fix braceError [openFile]).1.length = 1 := by
      rw [fix_block rfl rfl]
      rfl
    obtain ⟨c, hc⟩ := List.length_eq_one_iff.1 hone
    rw [hc, List.getElem?_cons_zero, Option.some_inj] at hfirst
    rw [hc, List.map_singleton, hfirst, hbalance]
    rfl
  · intro c hc _
    rw [List.mem_singleton.1 hc]
    exact hends

end Flatsheet.Repair
