import Flatsheet.Repair.Fixer

/-!
# `Proofs.Repair.EditScript` — the record of the repairs is an edit script

The alterations that repairs put on record can be replayed: an edit with a former text replaces the line
of its number, which has to be that text, and an edit without one inserts a line.

* **One file.** `Faithful` says that the edits of a repair, replayed on the lines of a candidate, give the
  lines after the repair. A repair that goes through the lines is faithful if it spares the lines that no
  repair touches (`faithful_repair`), because then no edit without a former text can be mistaken for an
  insertion; closing blocks is faithful because it inserts line after line (`faithful_closeBlocks`).
* **All files.** Each call for repairs applies one faithful repair to the files in scope (`fix_answer`,
  `fixAggressively_answer`), so `Scripted`, the invariant of a sequence of calls, survives each of them
  (`Scripted.answer`).
-/

namespace Flatsheet.Repair

open Text Log

/-! ## Replaying -/

/-- **Replays an edit on lines.** It fails if the line that is to be replaced is not the former one, or if
there is no such line. -/
def Edit.replay? (e : Edit) (ls : List Text) : Option (List Text) :=
  if e.line = 0 then none
  else if e.former = [] then
    if e.line ≤ ls.length + 1 then some (ls.insertIdx (e.line - 1) e.replacement) else none
  else if ls[e.line - 1]? = some e.former then some (ls.set (e.line - 1) e.replacement) else none

/-- Replays edits on lines, in order. -/
def replayEdits (es : List Edit) (ls : List Text) : Option (List Text) :=
  es.foldlM (fun ls e => e.replay? ls) ls

/-- The lines of files by their names. -/
abbrev NamedLines := List (Text × List Text)

/-- Replays an alteration on the first file of its name. -/
def Alteration.replay? (a : Alteration) : NamedLines → Option NamedLines
  | [] => none
  | (name, ls) :: files =>
    if name = a.file then (a.edit.replay? ls).map fun ls => (name, ls) :: files
    else (a.replay? files).map ((name, ls) :: ·)

/-- Replays a report on files, in order. -/
def Report.replay? (r : Report) (files : NamedLines) : Option NamedLines :=
  r.foldlM (fun files a => a.replay? files) files

/-- The lines of a candidate under the name by which its alterations are recorded. -/
def Candidate.named (c : Candidate) : Text × List Text := (c.name, c.lines)

theorem replayEdits_append (es fs : List Edit) (ls : List Text) :
    replayEdits (es ++ fs) ls = (replayEdits es ls).bind (replayEdits fs) :=
  List.foldlM_append ..

theorem replay?_append (r s : Report) (files : NamedLines) :
    Report.replay? (r ++ s) files = (Report.replay? r files).bind (Report.replay? s) :=
  List.foldlM_append ..

/-- Alterations of one file are replayed on the lines of that file. -/
theorem replay?_map_edit (name : Text) (es : List Edit) (ls : List Text) (files : NamedLines) :
    Report.replay? (es.map (⟨name, ·⟩)) ((name, ls) :: files) =
      (replayEdits es ls).map fun ls => (name, ls) :: files := by
  induction es generalizing ls with
  | nil => rfl
  | cons e es ih =>
    simp only [Report.replay?, replayEdits, List.map_cons, List.foldlM_cons, Alteration.replay?,
      if_true] at ih ⊢
    cases e.replay? ls with
    | none => rfl
    | some ls' => exact ih ls'

/-- Alterations of other files leave a file alone. -/
theorem replay?_cons_of_ne {name : Text} {r : Report} (h : ∀ a ∈ r, name ≠ a.file)
    (ls : List Text) (files : NamedLines) :
    Report.replay? r ((name, ls) :: files) = (Report.replay? r files).map ((name, ls) :: ·) := by
  induction r generalizing files with
  | nil => rfl
  | cons a r ih =>
    simp only [Report.replay?, List.foldlM_cons, Alteration.replay?,
      if_neg (h a List.mem_cons_self)] at ih ⊢
    cases a.replay? files with
    | none => rfl
    | some files' => exact ih (fun b hb => h b (List.mem_cons_of_mem _ hb)) files'

/-! ## Repairs of one file -/

/-- What a candidate stands for; repairs never change it. -/
def Candidate.identity (c : Candidate) : Text × Text × Text × Text :=
  (c.target, c.path, c.compiled, c.former)

/-- What follows from the identity of candidates is the same for candidates of the same identities. -/
theorem map_eq_of_identity {α : Type} {files files' : List Candidate}
    (g : Text × Text × Text × Text → α)
    (h : files'.map Candidate.identity = files.map Candidate.identity) :
    (files'.map fun c => g c.identity) = files.map fun c => g c.identity := by
  have hmap := congrArg (List.map g) h
  rw [List.map_map, List.map_map] at hmap
  exact hmap

/-- **A repair of a candidate is faithful**: its alterations are edits of the candidate that lead from the
lines before it to the lines after it, none of them replaces a line that no repair may touch, and the
candidate becomes dirty by them and only by them. -/
def Faithful (c : Candidate) (result : Candidate × List Alteration) : Prop :=
  ∃ es : List Edit, ∃ ls : List Text, result = c.edited ls es ∧ replayEdits es c.lines = some ls ∧
    ∀ e ∈ es, e.former ≠ [] → isProtected e.former = false

theorem faithful_none (c : Candidate) : Faithful c (c, []) :=
  ⟨[], c.lines, by simp [Candidate.edited], rfl, by simp⟩

/-- A way to repair lines spares the lines that no repair touches. -/
def Spares (decide : Nat → Text → LineRepair) (n : Nat) (ls : List Text) : Prop :=
  ∀ i l, ls[i]? = some l → isProtected l = true → decide (n + i) l = .keep

theorem spares_of_keep {decide : Nat → Text → LineRepair}
    (h : ∀ n l, isProtected l = true → decide n l = .keep) (n : Nat) (ls : List Text) :
    Spares decide n ls := fun i l _ => h (n + i) l

theorem Spares.tail {decide : Nat → Text → LineRepair} {n : Nat} {l : Text} {ls : List Text}
    (h : Spares decide n (l :: ls)) : Spares decide (n + 1) ls := by
  intro i m hm hp
  have := h (i + 1) m (by simpa using hm) hp
  rwa [show n + (i + 1) = n + 1 + i by omega] at this

/-- A line that no repair touches stays as it is, also in the middle of a statement. -/
theorem repairLine_protected {decide : Nat → Text → LineRepair} (pending : Option OpenStatement)
    {n : Nat} {l : Text} (hp : isProtected l = true) (hk : decide n l = .keep) :
    (repairLine decide pending n l).1 = l := by
  cases pending with
  | some s => simp only [repairLine, hp, if_true]
  | none => simp only [repairLine, hk]

theorem isProtected_nil : isProtected [] = true := rfl

/-- **The edits of a repair lead from the old lines to the new ones.** The lines `pre` come before the
ones that are repaired; their number fixes the number of the first line. -/
theorem replayEdits_repairLines {decide : Nat → Text → LineRepair} (pending : Option OpenStatement)
    {n : Nat} {ls : List Text} (hs : Spares decide n ls) (pre : List Text) (hn : n = pre.length + 1) :
    replayEdits (repairLines decide pending n ls).2 (pre ++ ls) =
      some (pre ++ (repairLines decide pending n ls).1) ∧
    ∀ e ∈ (repairLines decide pending n ls).2, isProtected e.former = false := by
  induction ls generalizing pre n pending with
  | nil => exact ⟨rfl, by simp [repairLines]⟩
  | cons l ls ih =>
    simp only [repairLines]
    rcases hline : repairLine decide pending n l with ⟨line, reason, pending'⟩
    have ih := ih pending' hs.tail (pre ++ [line]) (by simp [hn])
    simp only [List.append_assoc, List.singleton_append] at ih
    -- a line that comes out as it was leaves no edit
    by_cases hl : line = l
    · subst hl
      simp only [if_true]
      exact ih
    · have hprot : isProtected l = false := by
        cases hp : isProtected l with
        | false => rfl
        | true =>
          have := repairLine_protected pending hp (hs 0 l rfl hp)
          rw [Nat.add_zero, hline] at this
          exact absurd this hl
      have hne : l ≠ [] := by
        intro h
        rw [h, isProtected_nil] at hprot
        cases hprot
      simp only [hl, if_false]
      refine ⟨?_, ?_⟩
      · have hstep : (Edit.mk n l line reason).replay? (pre ++ l :: ls) = some (pre ++ line :: ls) := by
          simp [Edit.replay?, hn, hne]
        simp only [replayEdits, List.foldlM_cons, hstep] at ih ⊢
        exact ih.1
      · intro e he
        rcases List.mem_cons.1 he with rfl | he
        · exact hprot
        · exact ih.2 e he

/-- **A repair that goes through the lines is faithful** if it spares the lines that no repair touches. -/
theorem faithful_repair {decide : Nat → Text → LineRepair} {c : Candidate}
    (hs : Spares decide 1 c.lines) : Faithful c (c.repair decide) := by
  obtain ⟨hreplay, hspared⟩ := replayEdits_repairLines none hs [] rfl
  exact ⟨_, _, rfl, hreplay, fun e he _ => hspared e he⟩

theorem faithful_repair_of_keep {decide : Nat → Text → LineRepair} (c : Candidate)
    (h : ∀ n l, isProtected l = true → decide n l = .keep) : Faithful c (c.repair decide) :=
  faithful_repair (spares_of_keep h 1 c.lines)

/-- The edits that insert a number of equal lines, one after the other. -/
def insertions (kept missing : Nat) (line reason : Text) : List Edit :=
  (List.range missing).map fun i => ⟨kept + i + 1, [], line, reason⟩

/-- Inserting after the front of a list puts the line between front and rest. -/
theorem insertIdx_length_append (front rest : List Text) (line : Text) :
    (front ++ rest).insertIdx front.length line = front ++ line :: rest := by
  induction front with
  | nil => rfl
  | cons l front ih => simp [ih]

theorem replayEdits_insertions (pre post : List Text) (missing : Nat) (line reason : Text) :
    replayEdits (insertions pre.length missing line reason) (pre ++ post) =
      some (pre ++ List.replicate missing line ++ post) := by
  induction missing with
  | zero => simp [insertions, replayEdits]
  | succ k ih =>
    have hlength : (pre ++ List.replicate k line).length = pre.length + k := by simp
    have hlast : (Edit.mk (pre.length + k + 1) [] line reason).replay?
        (pre ++ List.replicate k line ++ post) =
          some (pre ++ List.replicate (k + 1) line ++ post) := by
      rw [Edit.replay?, if_neg (Nat.succ_ne_zero _), if_pos rfl,
        if_pos (by rw [List.length_append, hlength]; dsimp only; omega), Nat.add_sub_cancel,
        ← hlength, insertIdx_length_append, List.replicate_succ', List.append_assoc,
        List.append_assoc, List.append_assoc, List.singleton_append]
    have hsplit : insertions pre.length (k + 1) line reason =
        insertions pre.length k line reason ++ [⟨pre.length + k + 1, [], line, reason⟩] := by
      simp [insertions, List.range_succ]
    rw [hsplit, replayEdits_append, ih]
    simpa [replayEdits] using hlast

/-- **Closing blocks is faithful**: the braces go in one after the other, before the empty line at the
end. -/
theorem faithful_closeBlocks (c : Candidate) : Faithful c c.closeBlocks := by
  refine ⟨_, _, rfl, ?_, ?_⟩
  · generalize hkept : (if c.lines.getLast? = some [] then c.lines.length - 1
      else c.lines.length) = kept
    have hle : kept ≤ c.lines.length := by
      rw [← hkept]
      split <;> omega
    have h := replayEdits_insertions (c.lines.take kept) (c.lines.drop kept) c.braceBalance.toNat
      ['}'] "appended missing '\x7d'".toList
    rwa [List.length_take_of_le hle, List.take_append_drop] at h
  · intro e he hf
    obtain ⟨i, -, rfl⟩ := List.mem_map.1 he
    exact absurd rfl hf

/-! ## The repairs for errors -/

/-- **An answer to a call for repairs**: one faithful repair after the other, of each of the files. -/
inductive Answer : List Candidate → List Candidate × List Alteration → Prop
  | nil : Answer [] ([], [])
  | cons {c c' : Candidate} {files files' : List Candidate} {first others : List Alteration}
      (here : Faithful c (c', first)) (rest : Answer files (files', others)) :
      Answer (c :: files) (c' :: files', first ++ others)

theorem onFiles_answer {inScope : Candidate → Bool}
    {repair : Candidate → Candidate × List Alteration} (h : ∀ c, Faithful c (repair c))
    (files : List Candidate) : Answer files (onFiles inScope repair files) := by
  induction files with
  | nil => exact .nil
  | cons c files ih =>
    have here : Faithful c (if inScope c then repair c else (c, [])) := by
      split
      · exact h c
      · exact faithful_none c
    exact Answer.cons here ih

theorem unchanged_answer (files : List Candidate) : Answer files (files, []) := by
  induction files with
  | nil => exact .nil
  | cons c files ih => exact .cons (faithful_none c) ih

theorem balanceLine_protected {l : Text} (h : isProtected l = true) : balanceLine l = .keep := by
  simp only [balanceLine, h, if_true]

theorem onlyLine_protected {decide : Text → LineRepair} {k n : Nat} {l : Text}
    (h : decide l = .keep) : onlyLine k decide n l = .keep := by
  rw [onlyLine]
  split
  · exact h
  · rfl

theorem faithful_balance (c : Candidate) : Faithful c (c.repair fun _ => balanceLine) :=
  faithful_repair_of_keep c fun _ _ => balanceLine_protected

theorem faithful_balanceAt (k : Nat) (c : Candidate) :
    Faithful c (c.repair (onlyLine k balanceLine)) :=
  faithful_repair_of_keep c fun _ _ hp => onlyLine_protected (balanceLine_protected hp)

theorem faithful_fixVariable (name : Text) (c : Candidate) : Faithful c (fixVariable name c) :=
  faithful_repair_of_keep c fun _ l hp => by simp [hp]

theorem faithful_fixMixin (name : Text) (c : Candidate) : Faithful c (fixMixin name c) :=
  faithful_repair_of_keep c fun _ l hp => by simp [hp]

/-- The line that lacks a semicolon is one of the lines, and not a protected one. -/
theorem needsSemicolon_of_semicolonLine? {ls : List Text} {n k : Nat}
    (h : semicolonLine? ls n = some k) :
    0 < k ∧ ∀ l, ls[k - 1]? = some l → isProtected l = false := by
  have hk := List.find?_some h
  simp only [Bool.and_eq_true, decide_eq_true_eq] at hk
  refine ⟨hk.1, fun l hl => ?_⟩
  obtain ⟨hlt, rfl⟩ := List.getElem?_eq_some_iff.1 hl
  have hneeds := hk.2
  rw [List.drop_eq_getElem_cons hlt] at hneeds
  simp only [needsSemicolon, Bool.and_eq_true, Bool.not_eq_true'] at hneeds
  exact hneeds.1.1.1

theorem faithful_fixSemicolon (token : Text) (n : Nat) (c : Candidate) :
    Faithful c (fixSemicolon token n c) := by
  rw [fixSemicolon]
  split
  · next k hk =>
    -- the way to repair does not look at the line; it is the search that spares protected lines
    obtain ⟨hpos, hline⟩ := needsSemicolon_of_semicolonLine? hk
    refine faithful_repair fun i l hl hp => ?_
    rw [onlyLine, if_neg]
    intro hi
    rw [hline l (by rwa [← hi, Nat.add_sub_cancel_left])] at hp
    cases hp
  · split
    · exact faithful_none c
    · exact faithful_balanceAt n c

theorem faithful_fixSyntax (e : CompileError) (c : Candidate) : Faithful c (fixSyntax e c) := by
  rw [fixSyntax]
  split
  · exact faithful_closeBlocks c
  · split
    · split
      · exact faithful_none c
      · split
        · exact faithful_balanceAt _ c
        · exact faithful_fixSemicolon ..
    · split
      · exact faithful_closeBlocks c
      · exact faithful_balance c

theorem fixInvalidCss_answer (e : CompileError) (inScope : Candidate → Bool)
    (files : List Candidate) : Answer files (fixInvalidCss e inScope files) := by
  rw [fixInvalidCss]
  split
  · refine onFiles_answer (fun c => ?_) files
    split
    · exact faithful_repair_of_keep c fun _ l hp => onlyLine_protected (by simp [fixRejectedLine, hp])
    · exact faithful_none c
  · have htidied : Answer files (onFiles inScope (·.repair fun _ => fixSuspectLine) files) :=
      onFiles_answer
        (fun c => faithful_repair_of_keep c fun _ l hp => by simp [fixSuspectLine, hp]) files
    generalize onFiles inScope (·.repair fun _ => fixSuspectLine) files = answer at htidied ⊢
    obtain ⟨tidied, alterations⟩ := answer
    dsimp only
    split
    · exact htidied
    · exact onFiles_answer
        (fun c => faithful_repair_of_keep c fun _ l hp => by simp [fixPiece, hp]) files

/-- **The repair of an error repairs each file faithfully.** -/
theorem fix_answer (e : CompileError) (files : List Candidate) : Answer files (fix e files) := by
  simp only [fix]
  generalize (if files.any (names e) || files.length = 1 then e else { e with line := none }) = e'
  generalize (fun c => !files.any (names e) || names e c) = inScope
  split
  · split
    · exact unchanged_answer files
    · exact onFiles_answer (faithful_fixVariable _) files
  · split
    · exact unchanged_answer files
    · exact onFiles_answer (faithful_fixMixin _) files
  · exact onFiles_answer (faithful_fixSyntax _) files
  · exact fixInvalidCss_answer ..

/-- **So does the aggressive repair.** -/
theorem fixAggressively_answer (files : List Candidate) : Answer files (fixAggressively files) :=
  onFiles_answer (fun c => faithful_repair_of_keep c fun _ l hp => by simp [fixAnyLine, hp]) files

/-! ## Sequences of calls -/

/-- A call for repairs. -/
inductive RepairCall
  | forError (e : CompileError)
  | aggressive

/-- What a call answers: the files after the repairs, and the alterations. -/
def RepairCall.answer : RepairCall → List Candidate → List Candidate × List Alteration
  | forError e, files => fix e files
  | aggressive, files => fixAggressively files

/-- The answers to calls, one after the other: the files at the end, and what each call has altered. -/
def answers : List RepairCall → List Candidate → List Candidate × List (List Alteration)
  | [], files => (files, [])
  | call :: calls, files =>
    let (files, first) := call.answer files
    let (files, others) := answers calls files
    (files, first :: others)

theorem RepairCall.isAnswer (call : RepairCall) (files : List Candidate) :
    Answer files (call.answer files) := by
  cases call with
  | forError e => exact fix_answer e files
  | aggressive => exact fixAggressively_answer files

theorem answers_append (calls calls' : List RepairCall) (files : List Candidate) :
    answers (calls ++ calls') files = ((answers calls' (answers calls files).1).1,
      (answers calls files).2 ++ (answers calls' (answers calls files).1).2) := by
  induction calls generalizing files with
  | nil => rfl
  | cons call calls ih => simp only [List.cons_append, answers, ih]

/-- Some calls for repairs lead from files to files, with all these alterations. -/
def Repaired (files : List Candidate) (result : List Candidate × List Alteration) : Prop :=
  ∃ calls, result = ((answers calls files).1, (answers calls files).2.flatten)

namespace Repaired

variable {files files' files'' : List Candidate} {alterations alterations' : List Alteration}

theorem refl (files : List Candidate) : Repaired files (files, []) := ⟨[], rfl⟩

theorem trans (h : Repaired files (files', alterations))
    (h' : Repaired files' (files'', alterations')) :
    Repaired files (files'', alterations ++ alterations') := by
  obtain ⟨calls, hc⟩ := h
  obtain ⟨calls', hc'⟩ := h'
  cases hc
  cases hc'
  exact ⟨calls ++ calls', by rw [answers_append, List.flatten_append]⟩

end Repaired

theorem RepairCall.repaired (call : RepairCall) (files : List Candidate) :
    Repaired files (call.answer files) :=
  ⟨[call], by simp [answers]⟩

theorem fixAll_repaired (es : List CompileError) (files : List Candidate) :
    Repaired files (fixAll es files) := by
  induction es generalizing files with
  | nil => exact .refl files
  | cons e es ih => exact ((RepairCall.forError e).repaired files).trans (ih (fix e files).1)

namespace Answer

variable {files files' : List Candidate} {alterations : List Alteration}

theorem identity (h : Answer files (files', alterations)) :
    files'.map Candidate.identity = files.map Candidate.identity := by
  -- here and below: an answer grows with its files, and what it makes of them is a pair, so the
  -- induction is on the files
  induction files generalizing files' alterations with
  | nil => cases h; rfl
  | cons c files ih =>
    cases h with
    | cons here rest =>
      obtain ⟨es, ls, heq, -, -⟩ := here
      cases heq
      rw [List.map_cons, List.map_cons, ih rest]
      rfl

theorem spared (h : Answer files (files', alterations)) :
    ∀ a ∈ alterations, a.edit.former ≠ [] → isProtected a.edit.former = false := by
  induction files generalizing files' alterations with
  | nil => cases h; simp
  | cons c files ih =>
    cases h with
    | cons here rest =>
      obtain ⟨es, ls, heq, -, hspared⟩ := here
      cases heq
      intro a ha
      rcases List.mem_append.1 ha with ha | ha
      · obtain ⟨e, he, rfl⟩ := List.mem_map.1 ha
        exact hspared e he
      · exact ih rest a ha

/-- The alterations are alterations of the files. -/
theorem file_mem (h : Answer files (files', alterations)) :
    ∀ a ∈ alterations, a.file ∈ files.map Candidate.name := by
  induction files generalizing files' alterations with
  | nil => cases h; simp
  | cons c files ih =>
    cases h with
    | cons here rest =>
      obtain ⟨es, ls, heq, -, -⟩ := here
      cases heq
      intro a ha
      rcases List.mem_append.1 ha with ha | ha
      · obtain ⟨e, he, rfl⟩ := List.mem_map.1 ha
        exact List.mem_cons_self
      · exact List.mem_cons_of_mem _ (ih rest a ha)

/-- **The alterations lead from the lines of the files to their new lines.** -/
theorem replay (h : Answer files (files', alterations))
    (names : (files.map Candidate.name).Nodup) :
    Report.replay? alterations (files.map Candidate.named) = some (files'.map Candidate.named) := by
  induction files generalizing files' alterations with
  | nil => cases h; rfl
  | cons c files ih =>
    obtain ⟨hname, names⟩ := List.nodup_cons.1 names
    cases h with
    | @cons _ _ _ _ _ others here rest =>
      have hothers := rest.file_mem
      obtain ⟨es, ls, heq, hreplay, -⟩ := here
      cases heq
      rw [List.map_cons, replay?_append, Candidate.named, replay?_map_edit, hreplay]
      -- the alterations of the other files pass this one by, since their names are different
      have hne : ∀ a ∈ others, c.name ≠ a.file := fun a ha h => hname (h ▸ hothers a ha)
      simp only [Option.map_some, Option.bind_some]
      rw [replay?_cons_of_ne hne, ih rest names]
      rfl

/-- A candidate that is not dirty has not been repaired. -/
theorem mem_of_not_dirty (h : Answer files (files', alterations)) {c : Candidate} (hc : c ∈ files')
    (hd : c.dirty = false) : c ∈ files := by
  induction files generalizing files' alterations with
  | nil => cases h; simp at hc
  | cons c₀ files ih =>
    cases h with
    | cons here rest =>
      obtain ⟨es, ls, heq, hreplay, -⟩ := here
      cases heq
      rcases List.mem_cons.1 hc with rfl | hc
      · simp only [Bool.or_eq_false_iff, Bool.not_eq_false', List.isEmpty_iff] at hd
        obtain ⟨hd, rfl⟩ := hd
        cases hreplay
        obtain ⟨_, _, _, _, _, dirty⟩ := c₀
        cases hd
        exact List.mem_cons_self
      · exact List.mem_cons_of_mem _ (ih rest hc)

/-- A candidate becomes dirty by its own alterations and by nothing else. -/
theorem dirty_iff (h : Answer files (files', alterations))
    (names : (files.map Candidate.name).Nodup) {c' : Candidate} (hc : c' ∈ files') :
    ∃ c ∈ files, c.name = c'.name ∧
      (c'.dirty = true ↔ c.dirty = true ∨ ∃ a ∈ alterations, a.file = c'.name) := by
  induction files generalizing files' alterations with
  | nil => cases h; simp at hc
  | cons c₀ files ih =>
    obtain ⟨hname, names⟩ := List.nodup_cons.1 names
    cases h with
    | @cons _ _ _ files' first others here rest =>
      have hothers := rest.file_mem
      obtain ⟨es, ls, heq, -, -⟩ := here
      cases heq
      simp only [List.mem_append, or_and_right, exists_or]
      rcases List.mem_cons.1 hc with rfl | hc
      · refine ⟨c₀, List.mem_cons_self, rfl, ?_⟩
        have hown : (∃ a ∈ es.map (⟨c₀.name, ·⟩ : Edit → Alteration), a.file = c₀.name) ↔ es ≠ [] := by
          cases es <;> simp
        -- the names are different, so no alteration of another file is about this one
        have hnone : ¬ ∃ a ∈ others, a.file = c₀.name := fun ⟨a, ha, h⟩ => hname (h ▸ hothers a ha)
        change (c₀.dirty || !es.isEmpty) = true ↔ c₀.dirty = true ∨
          (∃ a ∈ es.map (⟨c₀.name, ·⟩ : Edit → Alteration), a.file = c₀.name) ∨
          ∃ a ∈ others, a.file = c₀.name
        rw [hown, or_iff_left hnone, Bool.or_eq_true, Bool.not_eq_true', List.isEmpty_eq_false_iff]
      · obtain ⟨c, hcm, hcn, hiff⟩ := ih rest names hc
        refine ⟨c, List.mem_cons_of_mem _ hcm, hcn, hiff.trans (or_congr_right ?_)⟩
        have hnone : ¬ ∃ a ∈ es.map (⟨c₀.name, ·⟩ : Edit → Alteration), a.file = c'.name := by
          rintro ⟨a, ha, h⟩
          obtain ⟨e, -, rfl⟩ := List.mem_map.1 ha
          have hsame : c₀.name = c.name := h.trans hcn.symm
          exact hname (hsame ▸ List.mem_map_of_mem hcm)
        exact (or_iff_right hnone).symm

end Answer

theorem Repaired.identity {files files' : List Candidate} {alterations : List Alteration}
    (h : Repaired files (files', alterations)) :
    files'.map Candidate.identity = files.map Candidate.identity := by
  obtain ⟨calls, hc⟩ := h
  cases hc
  induction calls generalizing files with
  | nil => rfl
  | cons call calls ih =>
    have hcall : Answer files ((call.answer files).1, (call.answer files).2) := call.isAnswer files
    exact ih.trans hcall.identity

/-- **The invariant of repairs**: the report is an edit script that leads from the files at the beginning to
the present ones. -/
structure Scripted (start files : List Candidate) (report : Report) : Prop where
  identity : files.map Candidate.identity = start.map Candidate.identity
  replay : report.replay? (start.map Candidate.named) = some (files.map Candidate.named)
  dirty : ∀ c ∈ files, c.dirty = true ↔ ∃ a ∈ report, a.file = c.name
  spared : ∀ a ∈ report, a.edit.former ≠ [] → isProtected a.edit.former = false
  untouched : ∀ c ∈ files, c.dirty = false → c ∈ start

namespace Scripted

variable {start files files' : List Candidate} {report : Report} {alterations : List Alteration}

theorem refl (h : ∀ c ∈ start, c.dirty = false) : Scripted start start [] where
  identity := rfl
  replay := rfl
  dirty := fun c hc => by simp [h c hc]
  spared := by simp
  untouched := fun c hc _ => hc

/-- The names of the files stay. -/
theorem names_nodup (h : Scripted start files report) (names : (start.map Candidate.name).Nodup) :
    (files.map Candidate.name).Nodup := by
  have hnames : files.map Candidate.name = start.map Candidate.name :=
    map_eq_of_identity (fun i => Path.fileName i.1) h.identity
  exact hnames ▸ names

/-- **The invariant survives an answer to a call.** -/
theorem answer (h : Scripted start files report) (ha : Answer files (files', alterations))
    (names : (start.map Candidate.name).Nodup) : Scripted start files' (report ++ alterations) where
  identity := ha.identity.trans h.identity
  replay := by
    rw [replay?_append, h.replay, Option.bind_some, ha.replay (h.names_nodup names)]
  dirty := by
    intro c' hc
    obtain ⟨c, hcm, hcn, hiff⟩ := ha.dirty_iff (h.names_nodup names) hc
    rw [hiff, h.dirty c hcm, hcn]
    simp only [List.mem_append, or_and_right, exists_or]
  spared := by
    intro a hm
    rcases List.mem_append.1 hm with hm | hm
    · exact h.spared a hm
    · exact ha.spared a hm
  untouched := fun c hc hd => h.untouched c (ha.mem_of_not_dirty hc hd) hd

/-- **And so it survives a sequence of calls.** -/
theorem answers (h : Scripted start files report) (names : (start.map Candidate.name).Nodup)
    (calls : List RepairCall) :
    Scripted start (answers calls files).1 (report ++ (answers calls files).2.flatten) := by
  induction calls generalizing files report with
  | nil => simpa [Repair.answers] using h
  | cons call calls ih =>
    have hcall : Answer files ((call.answer files).1, (call.answer files).2) := call.isAnswer files
    have hstep := ih (h.answer hcall names)
    simpa [Repair.answers, List.append_assoc] using hstep

theorem repaired (h : Scripted start files report) (names : (start.map Candidate.name).Nodup)
    (hr : Repaired files (files', alterations)) :
    Scripted start files' (report ++ alterations) := by
  obtain ⟨calls, hc⟩ := hr
  cases hc
  exact h.answers names calls

end Scripted

end Flatsheet.Repair
