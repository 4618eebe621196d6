import Flatsheet.Proofs.Repair.Calls
import Flatsheet.Proofs.Repair.EditScript
import Flatsheet.Proofs.Style.Reconversion

/-!
# `Proofs.Repair.SecondCall` — calling the aggressive repair again

The aggressive repair goes through the lines of a file, and asks about each line on which no statement goes on. A
second call right after the first one changes nothing exactly if each line that is asked about settles
(`second_call_idle_iff`):

* A line that no repair touches stays as it is, and so does a line behind a comment mark. So a call settles if nothing
  but blanks are before it (`kept_call_iff`). With anything else before it the block comment stands in the middle of
  the line, and the call in it is found again.
* A line with a brace keeps its code, and its references are converted. It settles unless that shows another
  reference, or makes a call (`kept_converted_iff`).
-/

namespace Flatsheet.Repair

open Text Style Mask

variable {l u w r name tail : Text} {x : Char} {k : Nat} {pieces : List (Text × Text)}
  {pending : Option OpenStatement}

/-! ## Protected lines -/

/-- A comment mark begins the text. -/
def marked (t : Text) : Bool := startsWith t "//".toList || startsWith t "/*".toList

/-- What a text begins with does not depend on the blanks at its end. -/
theorem startsWith_trim {word : Text} (hword : IsWord word) (l : Text) :
    startsWith (trim l) word = startsWith (trimLeft l) word := by
  obtain ⟨blanks, hcut, hblanks⟩ := eq_trimRight_append (trimLeft l)
  have hstops : Stops blanks := by
    intro c hc
    exact hblanks c (List.mem_of_mem_head? hc)
  rw [← startsWith_append_of_stops hword hstops (trim l), trim, ← hcut]

theorem isCommentLine_eq (l : Text) : isCommentLine l = marked (trimLeft l) := by
  rw [isCommentLine, marked, startsWith_trim (by decide), startsWith_trim (by decide)]

theorem marked_cons_cons (x y : Char) (r : Text) :
    marked (x :: y :: r) = true ↔ x = '/' ∧ (y = '/' ∨ y = '*') := by
  simp only [marked, startsWith, Bool.or_eq_true, List.isPrefixOf_iff_prefix]
  constructor
  · rintro (⟨r', h⟩ | ⟨r', h⟩)
    · cases h
      exact ⟨rfl, .inl rfl⟩
    · cases h
      exact ⟨rfl, .inr rfl⟩
  · rintro ⟨rfl, rfl | rfl⟩
    · exact .inl ⟨r, rfl⟩
    · exact .inr ⟨r, rfl⟩

theorem exists_of_marked (h : marked r = true) : ∃ r', r = '/' :: r' := by
  rw [marked, Bool.or_eq_true] at h
  rcases h with h | h
  · obtain ⟨r', rfl⟩ := List.isPrefixOf_iff_prefix.1 h
    exact ⟨_, rfl⟩
  · obtain ⟨r', rfl⟩ := List.isPrefixOf_iff_prefix.1 h
    exact ⟨_, rfl⟩

theorem trimLeft_of_blank {blanks : Text} (h : ∀ c ∈ blanks, isBlank c = true) : trimLeft blanks = [] := by
  have hcut : blanks ++ [] = blanks := List.append_nil blanks
  rw [trimLeft, ← hcut, List.dropWhile_append_of_pos h]
  rfl

theorem isBlank_of_isBlankLine (h : isBlankLine l = true) : ∀ c ∈ l, isBlank c = true := by
  intro c hc
  have hspace := List.all_eq_true.1 h c hc
  simp only [Bool.or_eq_true, decide_eq_true_eq] at hspace
  rcases hspace with (rfl | rfl) | rfl <;> rfl

/-- A line behind a comment mark is protected. -/
theorem isProtected_of_mark {blanks : Text} (hblanks : ∀ c ∈ blanks, isBlank c = true) (h : marked r = true) :
    isProtected (blanks ++ r) = true := by
  obtain ⟨r', rfl⟩ := exists_of_marked h
  rw [isProtected, isCommentLine_eq, trimLeft_append, trimLeft_of_blank hblanks, Bool.or_eq_true]
  exact .inr h

theorem isProtected_commentOut (l : Text) : isProtected (commentOut l) = true := by
  rw [commentOut]
  split
  · next hall =>
    have hblank : isBlankLine l = true := by
      rw [isBlankLine, List.all_eq_true]
      intro c hc
      have hspace := List.all_eq_true.1 hall c hc
      simp only [isSpaceOrTab, Bool.or_eq_true, decide_eq_true_eq] at hspace
      rcases hspace with rfl | rfl <;> rfl
    rw [isProtected, hblank, Bool.true_or]
  · rw [List.append_assoc]
    refine isProtected_of_mark ?_ rfl
    intro c hc
    exact (isBlank_of_isSpaceOrTab (List.all_eq_true.1 List.all_takeWhile c hc)).1

/-- **A stretch from the beginning of a line leaves it protected.** -/
theorem isProtected_disableSpan (l : Text) (stop : Nat) : isProtected (disableSpan l 0 stop) = true := by
  rw [disableSpan_eq]
  split
  · exact isProtected_commentOut l
  · rw [List.take_zero, List.nil_append, ← List.nil_append (comment _ ++ _)]
    exact isProtected_of_mark nofun rfl

/-- A line with a byte that is not blank is not blank. -/
theorem isBlankLine_of_mem (h : x ∈ l) (hx : isBlank x = false) : isBlankLine l = false := by
  rw [Bool.eq_false_iff]
  intro hall
  rw [isBlank_of_isBlankLine hall x h] at hx
  cases hx

/-- **Where a line that is not protected goes on in another way**, it is protected if a comment mark comes about. -/
theorem isProtected_append_cons (h : isProtected (u ++ r) = false) (hx : isBlank x = false) (v : Text) :
    isProtected (u ++ x :: v) = true ↔
      trimLeft u = [] ∧ marked (x :: v) = true ∨ trimLeft u = ['/'] ∧ (x = '/' ∨ x = '*') := by
  have hsolid : isBlankLine (u ++ x :: v) = false := isBlankLine_of_mem (List.mem_append_right u List.mem_cons_self) hx
  have hkept : trimLeft (x :: v) = x :: v := List.dropWhile_cons_of_neg (Bool.eq_false_iff.1 hx)
  rw [isProtected, Bool.or_eq_false_iff, isCommentLine_eq, trimLeft_append] at h
  rw [isProtected, hsolid, Bool.false_or, isCommentLine_eq, trimLeft_append, hkept]
  obtain ⟨-, hcomment⟩ := h
  cases hu : trimLeft u with
  | nil => simp
  | cons y p =>
    rw [hu] at hcomment
    simp only [List.isEmpty_cons, Bool.false_eq_true, if_false, List.cons_append] at hcomment ⊢
    cases p with
    | nil =>
      rw [List.nil_append, marked_cons_cons]
      simp
    | cons z p =>
      rw [List.cons_append, Bool.eq_false_iff, ne_eq, marked_cons_cons] at hcomment
      rw [List.cons_append, marked_cons_cons]
      simpa using hcomment

/-- **A block comment in a line leaves it protected** if it begins the line, or has a slash before it. -/
theorem isProtected_comment (h : isProtected (u ++ r) = false) (inside back : Text) :
    isProtected (u ++ comment inside ++ back) = true ↔ trimLeft u = [] ∨ trimLeft u = ['/'] := by
  have hcut : u ++ comment inside ++ back = u ++ '/' :: '*' :: (inside ++ "*/".toList ++ back) := by simp [comment]
  rw [hcut, isProtected_append_cons h rfl, marked_cons_cons]
  simp

/-! ## One line -/

/-- The line that the aggressive repair makes of a line on which no statement goes on. -/
def fixedLine (l : Text) : Text := (repairLine (fun _ => fixAnyLine) none 0 l).1

/-- **The aggressive repair leaves the line as it is.** -/
def Kept (l : Text) : Prop := fixedLine l = l

/-- The line opens or closes a block. -/
def Structural (l : Text) : Prop := '{' ∈ l ∨ '}' ∈ l

theorem fixAnyLine_protected (h : isProtected l = true) : fixAnyLine l = .keep := by
  rw [fixAnyLine, if_pos h]

theorem kept_of_protected (h : isProtected l = true) : Kept l :=
  repairLine_protected none h (fixAnyLine_protected h)

/-- A call is taken out of use, with its statement. -/
theorem fixedLine_of_call (h : isProtected l = false) (hcall : includeAt? l [] = some k) :
    ∃ s : OpenStatement, fixedLine l = disableSpan l k (s.stop k l) := by
  refine ⟨⟨0, 0, "aggressive: commented out mixin call".toList⟩, ?_⟩
  rw [← disable_line, fixedLine, repairLine, fixAnyLine, h, if_neg Bool.false_ne_true, hcall]

theorem hasVariable_of_shows (h : Shows l) : hasVariable l = true := by
  obtain ⟨i, hdollar, hname, -⟩ := h
  induction l generalizing i with
  | nil => cases hdollar
  | cons c r ih =>
    rw [hasVariable, Bool.or_eq_true]
    cases i with
    | zero =>
      left
      obtain ⟨x, hx, hstart⟩ := (Option.any_eq_true _ _).1 hname
      rw [List.getElem?_cons_succ, ← List.head?_eq_getElem?] at hx
      rw [hx, Option.any_some, isIdent_of_start hstart]
      simpa using hdollar
    | succ i => exact .inr (ih i hdollar hname)

/-- On a line with a brace the references are converted. -/
theorem fixedLine_of_structural (h : isProtected l = false) (hnone : includeAt? l [] = none) (hbrace : Structural l) :
    fixedLine l = (convertReferences l).1 := by
  have hcontains : (l.contains '{' || l.contains '}') = true := by
    rw [Bool.or_eq_true, List.contains_iff_mem, List.contains_iff_mem]
    exact hbrace
  rw [fixedLine, repairLine, fixAnyLine, h, if_neg Bool.false_ne_true, hnone]
  simp only [hcontains, if_true]
  cases hvariable : hasVariable l with
  | true => rfl
  | false =>
    symm
    rw [if_neg Bool.false_ne_true]
    apply (converted_eq_self_iff l).2
    intro hshows
    rw [hasVariable_of_shows hshows] at hvariable
    cases hvariable

/-- A line without a brace is kept or gets a comment mark. -/
theorem fixedLine_of_flat (hnone : includeAt? l [] = none) (hbrace : ¬ Structural l) :
    fixedLine l = l ∨ fixedLine l = commentOut l := by
  have hcontains : (l.contains '{' || l.contains '}') = false := by
    rw [Bool.eq_false_iff, ne_eq, Bool.or_eq_true, List.contains_iff_mem, List.contains_iff_mem]
    exact hbrace
  rw [fixedLine, repairLine, fixAnyLine]
  cases isProtected l
  · rw [if_neg Bool.false_ne_true, hnone]
    simp only [hcontains]
    cases callsHelper l <;> cases hasVariable l <;> simp
  · exact .inl rfl

theorem commentOut_ne (h : isProtected l = false) : commentOut l ≠ l := by
  rw [commentOut]
  split
  · next hall =>
    have hprotected := isProtected_commentOut l
    rw [commentOut, if_pos hall, h] at hprotected
    cases hprotected
  · intro heq
    have hlength := congrArg List.length heq
    have hparts := congrArg List.length (List.takeWhile_append_dropWhile (p := isSpaceOrTab) (l := l))
    rw [List.length_append] at hparts
    rw [List.length_append, List.length_append] at hlength
    have hmark : "// ".toList.length = 3 := rfl
    omega

/-- **A line with a call is not left as it is**, unless it is protected. -/
theorem not_kept_of_calling (h : isProtected l = false) (hcalling : Calling l) : ¬ Kept l := by
  obtain ⟨k, hk⟩ : ∃ k, includeAt? l [] = some k :=
    Option.ne_none_iff_exists'.1 fun hnone => includeAt?_eq_none_iff.1 hnone hcalling
  obtain ⟨w, r, hcut, hhead⟩ := exists_head (includeAt?_eq_some_iff.1 hk).1
  obtain ⟨between, x, rfl, -⟩ := hhead.parts
  obtain ⟨s, hfixed⟩ := fixedLine_of_call h hk
  rw [Kept, hfixed, disableSpan_eq]
  split
  · exact commentOut_ne h
  · -- where the keyword was there is a slash
    intro heq
    rw [List.append_assoc] at heq
    have hsame := heq.trans (List.take_append_drop k l).symm
    rw [hcut] at hsame
    cases List.append_cancel_left hsame

/-- **A line with a brace and without calls** is left as it is exactly if it shows no reference. -/
theorem kept_structural_iff (h : isProtected l = false) (hnone : ¬ Calling l) (hbrace : Structural l) :
    Kept l ↔ ¬ Shows l := by
  rw [Kept, fixedLine_of_structural h (includeAt?_eq_none_iff.2 hnone) hbrace, converted_eq_self_iff]

/-! ## Lines that settle -/

/-- **One call is enough for the line.** Nothing but blanks, and perhaps a slash, is before the call that is taken out
of use; or, on a line with braces, no exposed reference stands right behind a dollar sign or where the name of a mixin
is awaited. -/
def Settles (l : Text) : Prop :=
  isProtected l = true ∨
  match includeAt? l [] with
  | some start => trimLeft (l.take start) = [] ∨ trimLeft (l.take start) = ['/']
  | none => Structural l → ∀ i, ExposedAt l i → (l.take i).getLast? ≠ some '$' ∧ ¬ AwaitsName (l.take i)

/-- What the repair makes of a line with a call is left as it is exactly if the line settles. -/
theorem kept_call_iff (h : isProtected l = false) (hcall : includeAt? l [] = some k) :
    Kept (fixedLine l) ↔ trimLeft (l.take k) = [] ∨ trimLeft (l.take k) = ['/'] := by
  obtain ⟨w, r, hcut, hhead⟩ := exists_head (includeAt?_eq_some_iff.1 hcall).1
  obtain ⟨s, hfixed⟩ := fixedLine_of_call h hcall
  have hline : l.take k ++ l.drop k = l := List.take_append_drop k l
  rw [hfixed, disableSpan_eq]
  split
  · next hblank =>
    rw [Bool.and_eq_true] at hblank
    have hnothing : trimLeft (l.take k) = [] := trimLeft_of_blank (isBlank_of_isBlankLine hblank.1)
    exact ⟨fun _ => .inl hnothing, fun _ => kept_of_protected (isProtected_commentOut l)⟩
  · rw [← isProtected_comment (hline.symm ▸ h) (quote l k (s.stop k l)) (l.drop (s.stop k l))]
    constructor
    · intro hkept
      by_contra hunprotected
      -- the call is found again in the comment
      apply not_kept_of_calling (Bool.eq_false_iff.2 hunprotected) _ hkept
      obtain ⟨rest, hquote⟩ := quote_of_head hcut hhead (stop_of_head s hcut hhead)
      rw [calling_iff, hquote]
      exact ⟨l.take k ++ "/* ".toList, w, rest ++ "*/".toList ++ l.drop (s.stop k l), by simp [comment], hhead⟩
    · exact kept_of_protected

/-- A byte that is in no reference is in the converted text as well. -/
theorem mem_expressions (hnames : ∀ p ∈ pieces, IsName p.2) (hx : x ≠ '$' ∧ isIdent x = false)
    (h : x ∈ weave reference pieces tail) : x ∈ weave expression pieces tail := by
  induction pieces with
  | nil => exact h
  | cons p pieces ih =>
    obtain ⟨front, name⟩ := p
    rw [weave, List.mem_append, List.mem_append] at h ⊢
    rcases h with (h | h) | h
    · exact .inl (.inl h)
    · rcases List.mem_cons.1 h with rfl | h
      · exact absurd rfl hx.1
      · have hident := (hnames _ List.mem_cons_self).2 x h
        rw [hx.2] at hident
        cases hident
    · exact .inr (ih (fun p hp => hnames p (List.mem_cons_of_mem _ hp)) h)

/-- A line that is not protected is not protected by converting its references. -/
theorem isProtected_expressions (h : isProtected (weave reference pieces tail) = false) :
    isProtected (weave expression pieces tail) = false := by
  cases pieces with
  | nil => exact h
  | cons p pieces =>
    obtain ⟨front, name⟩ := p
    rw [weave, List.append_assoc] at h
    rw [weave_expression_cons, Bool.eq_false_iff, ne_eq, isProtected_append_cons h rfl]
    rintro (⟨-, hmark⟩ | ⟨-, hmark⟩)
    · obtain ⟨r', hr⟩ := exists_of_marked hmark
      cases hr
    · revert hmark
      decide

/-- References before a piece make no difference to what it awaits. -/
theorem awaitsName_append (a : Text) (hname : IsName name) (front : Text) :
    AwaitsName (a ++ reference name ++ front) ↔ AwaitsName front := by
  constructor
  · rintro ⟨u, between, hcut, hbetween⟩
    have hdollar : '$' ∉ "@include".toList ++ between := by
      intro hmem
      rcases List.mem_append.1 hmem with hmem | hmem
      · revert hmem
        decide
      · cases hbetween '$' hmem
    rw [List.append_assoc u] at hcut
    rcases List.append_eq_append_iff.1 hcut with ⟨z, -, hfront⟩ | ⟨z, hbefore, hkeyword⟩
    · exact ⟨z, between, by rw [hfront, List.append_assoc], hbetween⟩
    · cases z with
      | nil => exact ⟨[], between, hkeyword.symm, hbetween⟩
      | cons c z =>
        -- the keyword would begin in the reference, whose bytes are others
        obtain rfl : '@' = c := (List.cons.inj hkeyword).1
        rcases List.append_eq_append_iff.1 hbefore with ⟨q, -, hq⟩ | ⟨q, -, hq⟩
        · cases q with
          | nil => cases (List.cons.inj hq).1
          | cons d q =>
            have hname' : name = q ++ '@' :: z := (List.cons.inj hq).2
            cases hname.2 '@' (hname' ▸ List.mem_append_right q List.mem_cons_self)
        · apply absurd _ hdollar
          rw [hkeyword, hq]
          exact List.mem_append_left _ (List.mem_append_right q List.mem_cons_self)
  · rintro ⟨u, between, rfl, hbetween⟩
    exact ⟨a ++ reference name ++ u, between, by simp only [List.append_assoc], hbetween⟩

/-- **Converting the references of a line without calls** makes one where a mixin's name is awaited. -/
theorem calling_converted_iff (hnone : includeAt? l [] = none) :
    Calling (convertReferences l).1 ↔ ∃ i, ExposedAt l i ∧ AwaitsName (l.take i) := by
  obtain ⟨pieces, tail, hline, hresult, hnames, -, -, hread⟩ := exists_cut l
  have hquiet : ¬ Calling l := includeAt?_eq_none_iff.1 hnone
  rw [hresult, calling_expressions hnames, ← hline, ← hread AwaitsName fun a name front hname =>
    awaitsName_append a hname front]
  simp [hquiet]

/-- **What the repair makes of a line with braces and without calls** is left as it is exactly if the line settles. -/
theorem kept_converted_iff (h : isProtected l = false) (hnone : includeAt? l [] = none) (hbrace : Structural l) :
    Kept (fixedLine l) ↔
      ∀ i, ExposedAt l i → (l.take i).getLast? ≠ some '$' ∧ ¬ AwaitsName (l.take i) := by
  rw [fixedLine_of_structural h hnone hbrace]
  obtain ⟨pieces, tail, hline, hresult, hnames, -⟩ := exists_cut l
  have hstructural : Structural (convertReferences l).1 := by
    rw [hresult]
    rw [hline] at hbrace
    exact hbrace.imp (mem_expressions hnames (by decide)) (mem_expressions hnames (by decide))
  have hprotected : isProtected (convertReferences l).1 = false := by
    rw [hresult]
    exact isProtected_expressions (hline ▸ h)
  have hcalls := calling_converted_iff hnone
  -- the line is kept if it calls nothing and shows no reference, and both can be said of the line before
  constructor
  · intro hkept i hi
    have hnotCalling : ¬ Calling (convertReferences l).1 := fun hcalling =>
      not_kept_of_calling hprotected hcalling hkept
    refine ⟨?_, fun hawaits => hnotCalling (hcalls.2 ⟨i, hi, hawaits⟩)⟩
    intro hdollar
    exact (kept_structural_iff hprotected hnotCalling hstructural).1 hkept
      ((shows_converted_iff l).2 ⟨i, hi, hdollar⟩)
  · intro hsettles
    have hnotCalling : ¬ Calling (convertReferences l).1 := by
      intro hcalling
      obtain ⟨i, hi, hawaits⟩ := hcalls.1 hcalling
      exact (hsettles i hi).2 hawaits
    rw [kept_structural_iff hprotected hnotCalling hstructural]
    intro hshows
    obtain ⟨i, hi, hdollar⟩ := (shows_converted_iff l).1 hshows
    exact (hsettles i hi).1 hdollar

/-- **What the repair makes of a line is left as it is exactly if the line settles.** -/
theorem kept_iff_settles (l : Text) : Kept (fixedLine l) ↔ Settles l := by
  rw [Settles]
  cases h : isProtected l with
  | true =>
    have hkept : Kept l := kept_of_protected h
    simp only [true_or, iff_true]
    rw [hkept]
    exact hkept
  | false =>
    simp only [Bool.false_eq_true, false_or]
    cases hcall : includeAt? l [] with
    | some k => exact kept_call_iff h hcall
    | none =>
      by_cases hbrace : Structural l
      · simp only [hbrace, forall_const]
        exact kept_converted_iff h hcall hbrace
      · simp only [hbrace, false_implies, iff_true]
        rcases fixedLine_of_flat hcall hbrace with hfixed | hfixed
        · rw [hfixed]
          exact hfixed
        · rw [hfixed]
          exact kept_of_protected (isProtected_commentOut l)

/-! ## Files -/

/-- The lines that the aggressive repair asks about: those on which no statement goes on that is being taken out of
use. -/
def asked (pending : Option OpenStatement) : List Text → List Text
  | [] => []
  | l :: ls =>
    let rest := asked (repairLine (fun _ => fixAnyLine) pending 0 l).2.2 ls
    if pending.isNone then l :: rest else rest

/-- A line left as it is leaves no statement going on. -/
theorem pending_of_kept (h : Kept l) : (repairLine (fun _ => fixAnyLine) none 0 l).2.2 = none := by
  cases hp : isProtected l with
  | true => rw [repairLine, fixAnyLine_protected hp]
  | false =>
    have hnone : includeAt? l [] = none :=
      includeAt?_eq_none_iff.2 fun hcalling => not_kept_of_calling hp hcalling h
    rw [repairLine, fixAnyLine, hp, if_neg Bool.false_ne_true, hnone]
    dsimp only
    cases l.contains '{' || l.contains '}' <;> cases callsHelper l <;> cases hasVariable l <;> rfl

/-- **A second call leaves lines as they are** exactly if it leaves each of them as it is. -/
theorem repairLines_kept_iff (n : Nat) (ls : List Text) :
    ((repairLines (fun _ => fixAnyLine) none n ls).1 = ls ↔ ∀ l ∈ ls, Kept l) ∧
    ((∀ l ∈ ls, Kept l) → (repairLines (fun _ => fixAnyLine) none n ls).2 = []) := by
  induction ls generalizing n with
  | nil => exact ⟨⟨fun _ => nofun, fun _ => rfl⟩, fun _ => rfl⟩
  | cons l ls ih =>
    have hfirst : (repairLines (fun _ => fixAnyLine) none n (l :: ls)).1 =
        fixedLine l ::
          (repairLines (fun _ => fixAnyLine) (repairLine (fun _ => fixAnyLine) none 0 l).2.2 (n + 1) ls).1 := rfl
    obtain ⟨hlines, hedits⟩ := ih (n + 1)
    rw [hfirst, List.cons.injEq, List.forall_mem_cons]
    refine ⟨?_, ?_⟩
    · constructor
      · rintro ⟨hkept, hrest⟩
        rw [pending_of_kept hkept] at hrest
        exact ⟨hkept, hlines.1 hrest⟩
      · rintro ⟨hkept, hrest⟩
        rw [pending_of_kept hkept]
        exact ⟨hkept, hlines.2 hrest⟩
    · rintro ⟨hkept, hrest⟩
      have hnoEdit : (repairLines (fun _ => fixAnyLine) none n (l :: ls)).2 =
          (repairLines (fun _ => fixAnyLine) (repairLine (fun _ => fixAnyLine) none 0 l).2.2 (n + 1) ls).2 :=
        if_pos hkept
      rw [hnoEdit, pending_of_kept hkept]
      exact hedits hrest

/-- **What a call makes of lines is left as it is** exactly if the lines that it asks about settle. The others end up
behind comment marks. -/
theorem repaired_kept_iff (pending : Option OpenStatement) (n : Nat) (ls : List Text) :
    (∀ l ∈ (repairLines (fun _ => fixAnyLine) pending n ls).1, Kept l) ↔ ∀ l ∈ asked pending ls, Settles l := by
  induction ls generalizing pending n with
  | nil => exact ⟨fun _ => nofun, fun _ => nofun⟩
  | cons l ls ih =>
    have hlines : (repairLines (fun _ => fixAnyLine) pending n (l :: ls)).1 =
        (repairLine (fun _ => fixAnyLine) pending 0 l).1 ::
          (repairLines (fun _ => fixAnyLine) (repairLine (fun _ => fixAnyLine) pending 0 l).2.2 (n + 1) ls).1 := rfl
    rw [hlines, List.forall_mem_cons, ih, asked]
    cases pending with
    | none =>
      rw [Option.isNone_none, if_pos rfl, List.forall_mem_cons]
      exact and_congr_left' (kept_iff_settles l)
    | some s =>
      have hprotected : isProtected (repairLine (fun _ => fixAnyLine) (some s) 0 l).1 = true := by
        rw [repairLine]
        cases hp : isProtected l with
        | true => exact hp
        | false =>
          rw [if_neg Bool.false_ne_true]
          show isProtected (s.disable 0 l).1 = true
          rw [disable_line]
          exact isProtected_disableSpan l _
      rw [Option.isNone_some, if_neg Bool.false_ne_true]
      exact and_iff_right (kept_of_protected hprotected)

/-- The aggressive repair of one file. -/
def fixCandidate (c : Candidate) : Candidate × List Alteration := c.repair fun _ => fixAnyLine

theorem fixAggressively_eq (files : List Candidate) : fixAggressively files =
    (files.map fun c => (fixCandidate c).1, files.flatMap fun c => (fixCandidate c).2) := by
  rw [fixAggressively, onFiles]
  simp only [if_true, List.map_map, List.flatMap_map]
  rfl

/-- A file whose lines are left as they are is left as it is. -/
theorem fixCandidate_of_kept {c : Candidate} (h : ∀ l ∈ c.lines, Kept l) : fixCandidate c = (c, []) := by
  obtain ⟨hlines, hedits⟩ := repairLines_kept_iff 1 c.lines
  have hboth : repairLines (fun _ => fixAnyLine) none 1 c.lines = (c.lines, []) := Prod.ext (hlines.2 h) (hedits h)
  rw [fixCandidate, Candidate.repair, hboth]
  simp [Candidate.edited]

/-- **A second aggressive repair right after the first one** changes no line of any file exactly if each line that the
first one asks about settles, and then it changes nothing and records nothing. -/
theorem second_call_idle_iff (files : List Candidate) :
    ((fixAggressively (fixAggressively files).1).1.map (·.lines) = (fixAggressively files).1.map (·.lines) ↔
      ∀ c ∈ files, ∀ l ∈ asked none c.lines, Settles l) ∧
    ((∀ c ∈ files, ∀ l ∈ asked none c.lines, Settles l) →
      fixAggressively (fixAggressively files).1 = ((fixAggressively files).1, [])) := by
  have hkept : ∀ c : Candidate, (∀ l ∈ (fixCandidate c).1.lines, Kept l) ↔ ∀ l ∈ asked none c.lines, Settles l :=
    fun c => repaired_kept_iff none 1 c.lines
  have hlines : ∀ c : Candidate, (fixCandidate c).1.lines = c.lines ↔ ∀ l ∈ c.lines, Kept l :=
    fun c => (repairLines_kept_iff 1 c.lines).1
  simp only [fixAggressively_eq, List.map_map, List.flatMap_map]
  constructor
  · rw [List.map_inj_left]
    constructor
    · intro hsame c hc
      exact (hkept c).1 ((hlines _).1 (hsame c hc))
    · intro hsettles c hc
      exact (hlines _).2 ((hkept c).2 (hsettles c hc))
  · intro hsettles
    have hidle : ∀ c ∈ files, fixCandidate (fixCandidate c).1 = ((fixCandidate c).1, []) :=
      fun c hc => fixCandidate_of_kept ((hkept c).2 (hsettles c hc))
    refine Prod.ext ?_ ?_
    · apply List.map_congr_left
      intro c hc
      show (fixCandidate (fixCandidate c).1).1 = (fixCandidate c).1
      rw [hidle c hc]
    · apply List.flatMap_eq_nil_iff.2
      intro c hc
      rw [hidle c hc]

/-- A file of lines that settle: a call at the beginning of its line and a statement that goes on, a line with a
variable, a comment, and a rule with a reference. -/
def settledFile : Candidate :=
  ⟨"a.scss".toList, "a.scss".toList, "a.css".toList, [],
    ["  @include foo(1,".toList, "    $a) /* b */;".toList, "top: $x;".toList, "/* @include c; */".toList,
      ".d \x7b top: $y; \x7d".toList], false⟩

theorem settledFile_idle :
    asked none settledFile.lines = ["  @include foo(1,".toList, "top: $x;".toList, "/* @include c; */".toList,
      ".d \x7b top: $y; \x7d".toList] ∧
    fixAggressively (fixAggressively [settledFile]).1 = ((fixAggressively [settledFile]).1, []) := by
  have hasked : asked none settledFile.lines = ["  @include foo(1,".toList, "top: $x;".toList,
      "/* @include c; */".toList, ".d \x7b top: $y; \x7d".toList] := by decide +kernel
  refine ⟨hasked, (second_call_idle_iff [settledFile]).2 ?_⟩
  intro c hc l hl
  obtain rfl := List.mem_singleton.1 hc
  rw [hasked] at hl
  simp only [List.mem_cons, List.not_mem_nil, or_false] at hl
  -- a call, a line without braces, a comment, and a line whose reference stands by itself
  rcases hl with rfl | rfl | rfl | rfl
  · have hcall : includeAt? "  @include foo(1,".toList [] = some 2 := by decide +kernel
    right
    rw [hcall]
    exact .inl (by decide)
  · have hnone : includeAt? "top: $x;".toList [] = none := by decide +kernel
    right
    rw [hnone]
    rintro (hbrace | hbrace) <;> exact absurd hbrace (by decide)
  · exact .inl (by decide +kernel)
  · have hnone : includeAt? ".d \x7b top: $y; \x7d".toList [] = none := by decide +kernel
    right
    rw [hnone]
    intro _ i hi
    have honly : ∀ i, i < 15 → ".d \x7b top: $y; \x7d".toList[i]? = some '$' → i = 10 := by decide
    obtain rfl := honly i (Nat.lt_of_succ_lt hi.succ_lt) hi.dollar
    refine ⟨by decide, ?_⟩
    rintro ⟨u, between, hcut, -⟩
    have hat : '@' ∈ ".d \x7b top: $y; \x7d".toList.take 10 := by
      rw [hcut]
      simp
    exact absurd hat (by decide)

/-- A file of one line, on which a rule holds a call and a declaration. -/
def calledOnce : Candidate :=
  ⟨"f0.scss".toList, "f0.scss".toList, "f0.css".toList, [], [".b \x7b @include foo; color: red; \x7d".toList], false⟩

/-- **A call in the middle of a line is taken out of use again and again**, a comment around the comment. -/
theorem second_call_nests_comment :
    (fixAggressively [calledOnce]).1.map (·.lines) = [[".b \x7b /* @include foo; */ color: red; \x7d".toList]] ∧
    (fixAggressively (fixAggressively [calledOnce]).1).1.map (·.lines) =
      [[".b \x7b /* /* @include foo; */ */ color: red; \x7d".toList]] ∧
    (fixAggressively (fixAggressively [calledOnce]).1).1.map (·.lines) ≠
      (fixAggressively [calledOnce]).1.map (·.lines) := by
  decide +kernel

end Flatsheet.Repair
