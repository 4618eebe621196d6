import Flatsheet.Proofs.Repair.EditScript
import Flatsheet.Proofs.Style.Sweep

/-!
# `Proofs.Repair.Treatment` — what repairs do with the lines of a file

There are many repairs, but they do only a few things with a line (`Treated`): they leave it as it is, write it in
another way, put a comment mark before it, or take a statement of it out of use, which may go on in the next line. A
repair of a file goes through its lines and does one of these things with each (`Goes`), or it closes blocks. That is so
for the repair of every error and for the aggressive repair (`fix_mends`, `fixAggressively_mends`).
-/

namespace Flatsheet.Repair

open Text Style Log

variable {c c' : Candidate} {e : CompileError} {files : List Candidate} {l l' name : Text} {i n start : Nat}
  {p q : Option OpenStatement} {decide : Nat → Text → LineRepair}

/-! ## Lines -/

/-- **A statement is taken out of use from an offset of a line on**: it goes on from the line before, or it begins
there. It begins behind spaces and tabs only, or with the byte that begins a mixin call. -/
inductive Opens : Option OpenStatement → OpenStatement → Nat → Text → Prop
  | goesOn (o : OpenStatement) (l : Text) : Opens (some o) o 0 l
  | begins (reason : Text) (start : Nat) (l : Text) (hle : start ≤ l.length)
      (h : (∀ c ∈ l.take start, isSpaceOrTab c = true) ∨ l[start]? = some '@') : Opens none ⟨0, 0, reason⟩ start l

/-- **What repairs make of a line**, with the statement that is being taken out of use before the line and behind it. -/
inductive Treated : Option OpenStatement → Text → Text → Option OpenStatement → Prop
  | same (p : Option OpenStatement) (l : Text) : Treated p l l p
  | balanced (l : Text) : Treated none l (balanceParens l) none
  | ended (l : Text) : Treated none l (trimRight l ++ [';']) none
  | collapsed (l : Text) : Treated none l (collapseSemicolons l) none
  | converted (l : Text) : Treated none l (convertReferences l).1 none
  | replaced (name l : Text) : Treated none l (replaceVariable name l) none
  | commented (l : Text) (flat : '{' ∉ l ∧ '}' ∉ l) : Treated none l (commentOut l) none
  | disabled {p : Option OpenStatement} {o : OpenStatement} {start : Nat} {l : Text} (opens : Opens p o start l) :
      Treated p l (o.disable start l).1 (o.disable start l).2

/-- What a repair decides about a line comes to one of these things. -/
inductive Fits (l : Text) : LineRepair → Prop
  | keep : Fits l .keep
  | replace {l' : Text} (reason : Text) (h : Treated none l l' none) : Fits l (.replace l' reason)
  | disable {start : Nat} (reason : Text) (h : Opens none ⟨0, 0, reason⟩ start l) : Fits l (.disable start reason)

theorem treated_repairLine (h : Fits l (decide n l)) :
    Treated p l (repairLine decide p n l).1 (repairLine decide p n l).2.2 := by
  cases p with
  | some o =>
    rw [repairLine]
    split
    · exact .same (some o) l
    · exact .disabled (.goesOn o l)
  | none =>
    rw [repairLine]
    generalize decide n l = decision at h
    cases h with
    | keep => exact .same none l
    | replace reason htreated => exact htreated
    | disable reason hopens => exact .disabled hopens

/-! ## Runs -/

/-- **A repair goes through lines** and treats each of them. -/
inductive Goes : Option OpenStatement → List Text → List Text → Option OpenStatement → Prop
  | nil (p : Option OpenStatement) : Goes p [] [] p
  | cons {p q r : Option OpenStatement} {l l' : Text} {ls ls' : List Text} (here : Treated p l l' q)
      (rest : Goes q ls ls' r) : Goes p (l :: ls) (l' :: ls') r

theorem Goes.refl (p : Option OpenStatement) (ls : List Text) : Goes p ls ls p := by
  induction ls with
  | nil => exact .nil p
  | cons l ls ih => exact .cons (.same p l) ih

theorem goes_repairLines (h : ∀ n l, Fits l (decide n l)) (p : Option OpenStatement) (n : Nat) (ls : List Text) :
    ∃ q, Goes p ls (repairLines decide p n ls).1 q := by
  induction ls generalizing p n with
  | nil => exact ⟨p, .nil p⟩
  | cons l ls ih =>
    obtain ⟨q, hrest⟩ := ih (repairLine decide p n l).2.2 (n + 1)
    exact ⟨q, .cons (treated_repairLine (h n l)) hrest⟩

/-- **A file is mended**: a repair goes through its lines, or its blocks are closed. -/
def Mends (c c' : Candidate) : Prop := c' = c.closeBlocks.1 ∨ ∃ q, Goes none c.lines c'.lines q

theorem Mends.refl (c : Candidate) : Mends c c := .inr ⟨none, .refl none c.lines⟩

theorem mends_repair (h : ∀ n l, Fits l (decide n l)) (c : Candidate) : Mends c (c.repair decide).1 :=
  .inr (goes_repairLines h none 1 c.lines)

/-! ## What the repairs decide -/

theorem fits_onlyLine {choose : Text → LineRepair} (h : ∀ l, Fits l (choose l)) (n m : Nat) (l : Text) :
    Fits l (onlyLine n choose m l) := by
  rw [onlyLine]
  split
  · exact h l
  · exact .keep

theorem fits_balanceLine (l : Text) : Fits l (balanceLine l) := by
  rw [balanceLine]
  split
  · exact .keep
  · exact .replace _ (.balanced l)

/-- An include begins with its at sign. -/
theorem at_of_includeAt? (h : includeAt? l name = some start) : l[start]? = some '@' := by
  obtain ⟨c, n, hc, hlook⟩ := mem_sweep (List.mem_of_mem_head? h)
  rw [lookInclude] at hlook
  split at hlook
  · next hstarts =>
    obtain ⟨r, hr⟩ := List.isPrefixOf_iff_prefix.1 hstarts
    have hpos : start = c.pos := by
      dsimp only at hlook
      split at hlook <;> split at hlook <;> first | exact (Sighting.found.inj hlook).1.symm | cases hlook
    rw [hpos, ← Nat.add_zero c.pos, ← hc.getElem?_rest, ← hr]
    rfl
  · cases hlook

/-- An include that is found is taken out of use from its at sign on. -/
theorem opens_include (reason : Text) (h : includeAt? l name = some start) : Opens none ⟨0, 0, reason⟩ start l := by
  have hat := at_of_includeAt? h
  exact .begins reason start l (Nat.le_of_lt (List.getElem?_eq_some_iff.1 hat).1) (.inr hat)

theorem fits_disableLine (l : Text) : Fits l (disableLine l) := by
  refine .disable _ (.begins _ _ l (List.takeWhile_sublist _).length_le (.inl ?_))
  intro c hc
  have hspaces : l.take (indentation l) = l.takeWhile isSpaceOrTab := by
    have htake : (l.takeWhile isSpaceOrTab ++ l.dropWhile isSpaceOrTab).take (l.takeWhile isSpaceOrTab).length =
        l.takeWhile isSpaceOrTab := List.take_left
    rwa [List.takeWhile_append_dropWhile] at htake
  rw [hspaces] at hc
  exact List.all_eq_true.1 List.all_takeWhile c hc

theorem mem_dropWhile {kind : Char → Bool} {x : Char} {t : Text} (h : x ∈ t) (hx : kind x = false) :
    x ∈ t.dropWhile kind := by
  rw [← List.takeWhile_append_dropWhile (p := kind) (l := t), List.mem_append] at h
  rcases h with h | h
  · rw [List.all_eq_true.1 List.all_takeWhile x h] at hx
    cases hx
  · exact h

/-- A line without a value has no braces. -/
theorem flat_of_isEmptyValue (h : isEmptyValue l = true) : '{' ∉ l ∧ '}' ∉ l := by
  have hnone : ∀ x, x = '{' ∨ x = '}' → x ∉ l := by
    intro x hx hmem
    obtain ⟨hblank, hdash, hident, hmarks⟩ : isBlank x = false ∧ (decide (x = '-')) = false ∧ isIdent x = false ∧
        x ≠ ':' ∧ x ≠ ';' := by
      rcases hx with rfl | rfl <;> decide
    rw [isEmptyValue] at h
    -- a brace would be left behind each part of the line
    have hname : x ∈ (trimLeft l).dropWhile (· = '-') := mem_dropWhile (mem_dropWhile hmem hblank) hdash
    have hrest : x ∈ trimLeft (((trimLeft l).dropWhile (· = '-')).dropWhile isIdent) :=
      mem_dropWhile (mem_dropWhile hname hident) hblank
    rw [Bool.and_eq_true] at h
    obtain ⟨-, h⟩ := h
    split at h
    · next r hcolon =>
      rw [hcolon, List.mem_cons] at hrest
      have hvalue : x ∈ trimLeft r := mem_dropWhile (hrest.resolve_left hmarks.1) hblank
      split at h
      · next rest hsemicolon =>
        rw [hsemicolon, List.mem_cons] at hvalue
        rw [List.all_eq_true.1 h x (hvalue.resolve_left hmarks.2)] at hblank
        cases hblank
      · cases h
    · cases h
  exact ⟨hnone '{' (.inl rfl), hnone '}' (.inr rfl)⟩

theorem fits_tidyLine {d : LineRepair} (h : tidyLine? l = some d) : Fits l d := by
  rw [tidyLine?] at h
  split at h
  · cases h
    exact .replace _ (.collapsed l)
  · split at h
    · next hempty =>
      cases h
      exact .replace _ (.commented l (flat_of_isEmptyValue hempty))
    · cases h

theorem fits_fixRejectedLine (l : Text) : Fits l (fixRejectedLine l) := by
  rw [fixRejectedLine]
  split
  · exact .keep
  · split
    · next d hd => exact fits_tidyLine hd
    · split
      · exact fits_disableLine l
      · exact fits_balanceLine l

theorem fits_fixSuspectLine (l : Text) : Fits l (fixSuspectLine l) := by
  rw [fixSuspectLine]
  split
  · exact .keep
  · cases hd : tidyLine? l with
    | none => exact .keep
    | some d => exact fits_tidyLine hd

theorem fits_fixPiece (piece l : Text) : Fits l (fixPiece piece l) := by
  rw [fixPiece]
  split
  · exact .keep
  · exact fits_disableLine l

theorem fits_fixAnyLine (l : Text) : Fits l (fixAnyLine l) := by
  rw [fixAnyLine]
  split
  · exact .keep
  · split
    · next start hstart => exact .disable _ (opens_include _ hstart)
    · split
      · split
        · exact .replace _ (.converted l)
        · exact .keep
      · next hflat =>
        have hbraces : '{' ∉ l ∧ '}' ∉ l := by simpa using hflat
        split
        · exact .replace _ (.commented l hbraces)
        · split
          · exact .replace _ (.commented l hbraces)
          · exact .keep

/-! ## Repairs of a file -/

theorem mends_fixVariable (name : Text) (c : Candidate) : Mends c (fixVariable name c).1 := by
  refine mends_repair (fun n l => ?_) c
  split
  · exact .keep
  · exact .replace _ (.replaced name l)

theorem mends_fixMixin (name : Text) (c : Candidate) : Mends c (fixMixin name c).1 := by
  refine mends_repair (fun n l => ?_) c
  split
  · exact .keep
  · next start hstart =>
    split at hstart
    · cases hstart
    · exact .disable _ (opens_include _ hstart)

theorem mends_fixSemicolon (token : Text) (n : Nat) (c : Candidate) : Mends c (fixSemicolon token n c).1 := by
  rw [fixSemicolon]
  split
  · exact mends_repair (fits_onlyLine (fun l => .replace _ (.ended l)) _) c
  · split
    · exact .refl c
    · exact mends_repair (fits_onlyLine fits_balanceLine n) c

theorem mends_fixSyntax (e : CompileError) (c : Candidate) : Mends c (fixSyntax e c).1 := by
  rw [fixSyntax]
  split
  · exact .inl rfl
  · split
    · split
      · exact .refl c
      · split
        · exact mends_repair (fits_onlyLine fits_balanceLine _) c
        · exact mends_fixSemicolon ..
    · split
      · exact .inl rfl
      · exact mends_repair (fun _ => fits_balanceLine) c

/-! ## Repairs of files -/

theorem mends_onFiles {inScope : Candidate → Bool} {repair : Candidate → Candidate × List Alteration}
    (h : ∀ c, Mends c (repair c).1) (hc : files[i]? = some c) (hc' : (onFiles inScope repair files).1[i]? = some c') :
    Mends c c' := by
  simp only [onFiles, List.map_map, List.getElem?_map, hc, Option.map_some, Option.some.injEq] at hc'
  rw [← hc', Function.comp_apply]
  split
  · exact h c
  · exact .refl c

theorem mends_fixInvalidCss {inScope : Candidate → Bool} (hc : files[i]? = some c)
    (hc' : (fixInvalidCss e inScope files).1[i]? = some c') : Mends c c' := by
  rw [fixInvalidCss] at hc'
  split at hc'
  · refine mends_onFiles (fun c => ?_) hc hc'
    split
    · exact mends_repair (fits_onlyLine fits_fixRejectedLine _) c
    · exact .refl c
  · dsimp only at hc'
    split at hc'
    · exact mends_onFiles (fun c => mends_repair (fun _ => fits_fixSuspectLine) c) hc hc'
    · exact mends_onFiles (fun c => mends_repair (fun _ => fits_fixPiece _) c) hc hc'

/-- **The repair of an error mends each file.** -/
theorem fix_mends (hc : files[i]? = some c) (hc' : (fix e files).1[i]? = some c') : Mends c c' := by
  have hsame : files[i]? = some c' → Mends c c' := by
    intro hfile
    obtain rfl := Option.some.inj (hc.symm.trans hfile)
    exact .refl c
  simp only [fix] at hc'
  generalize (if files.any (names e) || files.length = 1 then e else { e with line := none }) = e' at hc'
  generalize (fun c => !files.any (names e) || names e c) = inScope at hc'
  split at hc'
  · split at hc'
    · exact hsame hc'
    · exact mends_onFiles (mends_fixVariable _) hc hc'
  · split at hc'
    · exact hsame hc'
    · exact mends_onFiles (mends_fixMixin _) hc hc'
  · exact mends_onFiles (mends_fixSyntax e') hc hc'
  · exact mends_fixInvalidCss hc hc'

/-- **So does the aggressive repair.** -/
theorem fixAggressively_mends (hc : files[i]? = some c) (hc' : (fixAggressively files).1[i]? = some c') : Mends c c' :=
  mends_onFiles (fun c => mends_repair (fun _ => fits_fixAnyLine) c) hc hc'

theorem RepairCall.mends (call : RepairCall) (hc : files[i]? = some c) (hc' : (call.answer files).1[i]? = some c') :
    Mends c c' := by
  cases call with
  | forError e => exact fix_mends hc hc'
  | aggressive => exact fixAggressively_mends hc hc'

end Flatsheet.Repair
