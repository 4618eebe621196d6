import Flatsheet.Proofs.Style.Declarations
import Flatsheet.Proofs.Style.OneLine
import Flatsheet.Proofs.Style.Redeclaration
import Flatsheet.Proofs.Style.Usages

/-!
# `Proofs.Style.RootBlock` — one complete declaration for each variable

In front of a sheet with variables stands a `:root` block with a line for each of them (`Declares`). The lines
are complete if the values fit on one line: then nothing is open at the end of a line, and the semicolon there is
code. A comment in a value that ends with its line, or a string that the end of a line cuts short, goes on when the
value is put on one line, and takes the semicolon with it (`line_comment_hides_semicolon`).

* `after_convertReferences`: converting references opens nothing
* `rests_declared`: the lines of the block come to rest
-/

namespace Flatsheet.Style

open Text Check Mask

variable {t content : Text} {v : Variable} {vars : List Variable}

/-! ## Names -/

theorem ident_of_mem_find {d : Declaration} (h : d ∈ Declaration.find t) : ∀ x ∈ d.name, isIdent x = true := by
  obtain ⟨c, hc, -, hfound⟩ := mem_findFrom (Nat.zero_le _) h
  exact ident_of_at? hc hfound

/-! ## Values -/

/-- A whole piece does not matter to what comes after it. -/
theorem after_piece {a p b : Text} (hp : Whole p) (h : Joins a (p ++ b).head?) :
    State.after none .code none (a ++ (p ++ b)) = State.after none .code none b := by
  by_cases hnone : p ++ b = []
  · obtain ⟨rfl, rfl⟩ := List.append_eq_nil_iff.1 hnone
    exact (List.append_nil a).symm ▸ h.code
  · rw [after_of_joins h hnone]
    by_cases hb : b = []
    · rw [hb, List.append_nil]
      exact (hp.rests.joins none).code
    · exact after_of_joins (hp.rests.joins b.head?) hb

/-- **Where references are converted nothing is opened or closed.** -/
theorem after_convertReferences (t : Text) :
    State.after none .code none (convertReferences t).1 = .code ↔ State.after none .code none t = .code := by
  have hedits := edits_of_references t (codeMask t) (length_codeMask t).symm
  refine iff_replaceSpans (P := fun t => State.after none .code none t = .code) ?_ hedits.apart
    fun e he => exchange_of_usage (hedits.usage e he)
  intro a p q b hp hq hjoins hjoins'
  rw [after_piece hp hjoins, after_piece hq hjoins']

theorem mem_replaceSpans {es : List (Span × Text)} {x : Char} (h : x ∈ replaceSpans t es) :
    x ∈ t ∨ ∃ e ∈ es, x ∈ e.2 := by
  induction es with
  | nil => exact .inl h
  | cons e es ih =>
    have hpieces : x ∈ (replaceSpans t es).take e.1.start ++ e.2 ++ (replaceSpans t es).drop e.1.stop := h
    rw [List.mem_append, List.mem_append] at hpieces
    have hothers : x ∈ replaceSpans t es → x ∈ t ∨ ∃ f ∈ e :: es, x ∈ f.2 := by
      intro hx
      rcases ih hx with hx | ⟨f, hf, hx⟩
      · exact .inl hx
      · exact .inr ⟨f, List.mem_cons_of_mem e hf, hx⟩
    rcases hpieces with (hx | hx) | hx
    · exact hothers (List.mem_of_mem_take hx)
    · exact .inr ⟨e, List.mem_cons_self, hx⟩
    · exact hothers (List.mem_of_mem_drop hx)

/-- References are converted within their lines. -/
theorem not_mem_convertReferences (h : '\n' ∉ t) : '\n' ∉ (convertReferences t).1 := by
  intro hmem
  rcases mem_replaceSpans hmem with hmem | ⟨e, he, hmem⟩
  · exact h hmem
  · have hedits := edits_of_references t (codeMask t) (length_codeMask t).symm
    obtain ⟨name, -, hname, hpiece⟩ := hedits.usage e he
    rw [hpiece, replacement_of_ident hname, List.mem_append, List.mem_append] at hmem
    rcases hmem with (hmem | hmem) | hmem
    · revert hmem
      decide
    · cases hname '\n' hmem
    · revert hmem
      decide

/-- **A variable whose value fits on one line.** -/
def Variable.Fits (v : Variable) : Prop := fitsOnLine none .code v.value = true

instance (v : Variable) : Decidable v.Fits := inferInstanceAs (Decidable (_ = _))

theorem Variable.Fits.hoistedValue (h : v.Fits) : State.after none .code none v.hoistedValue = .code := by
  have hjoined := after_joinLineBreaks h
  unfold Variable.hoistedValue
  dsimp only
  split
  · exact hjoined
  · exact (after_convertReferences _).2 hjoined

theorem not_mem_hoistedValue (v : Variable) : '\n' ∉ v.hoistedValue := by
  have hjoined := not_mem_joinLineBreaks v.value
  unfold Variable.hoistedValue
  dsimp only
  split
  · exact hjoined
  · exact not_mem_convertReferences hjoined

/-! ## Lines -/

/-- The line of a variable, up to the semicolon. -/
def Variable.entry (v : Variable) : Text := "  --".toList ++ v.name ++ ": ".toList ++ v.hoistedValue

/-- The beginning of a block that declares variables. -/
def declared (vars : List Variable) : Text :=
  ":root \x7b\n".toList ++ vars.flatMap fun v => v.entry ++ ";\n".toList

/-- Behind the line of a variable stands its semicolon. -/
theorem declared_cut (above : List Variable) (v : Variable) (below : List Variable) :
    ∃ r, declared (above ++ v :: below) = declared above ++ v.entry ++ ';' :: r := by
  refine ⟨'\n' :: below.flatMap fun v => v.entry ++ ";\n".toList, ?_⟩
  unfold declared
  rw [List.flatMap_append, List.flatMap_cons]
  simp only [List.append_assoc]
  rfl

/-- What stands in front of a value comes to rest. -/
theorem rests_label {name : Text} (hname : ∀ x ∈ name, isIdent x = true) :
    Rests ("  --".toList ++ name ++ ": ".toList) := by
  have hlast : ("  --".toList ++ name ++ ": ".toList).getLast? = some ' ' :=
    getLast?_append_right _ (by decide)
  have hindent : Plain "  --".toList := by decide
  have hcolon : Plain ": ".toList := by decide
  have hplain : Plain ("  --".toList ++ name ++ ": ".toList) := by
    intro x hx
    rw [List.mem_append, List.mem_append] at hx
    rcases hx with (hx | hx) | hx
    · exact hindent x hx
    · have hident := hname x hx
      refine ⟨?_, ?_, ?_⟩ <;> (rintro rfl; cases hident)
    · exact hcolon x hx
  apply hplain.rests <;> (rw [hlast]; decide)

/-- **The line of a value that fits ends in code.** -/
theorem Variable.Fits.entry (h : v.Fits) (hname : ∀ x ∈ v.name, isIdent x = true) :
    State.after none .code (some ';') v.entry = .code := by
  have hinert : Inert (some ';') := ⟨by decide, by decide⟩
  have hvalue := after_code_of_inert h.hoistedValue hinert
  unfold Variable.entry
  by_cases hnone : v.hoistedValue = []
  · rw [hnone, List.append_nil]
    exact ((rests_label hname).joins _).code
  · rw [after_of_joins ((rests_label hname).joins _) hnone]
    exact hvalue

/-- The line of a variable is one line. -/
theorem Variable.not_mem_entry (hname : ∀ x ∈ v.name, isIdent x = true) : '\n' ∉ v.entry := by
  intro hmem
  unfold Variable.entry at hmem
  rw [List.mem_append, List.mem_append, List.mem_append] at hmem
  rcases hmem with ((hmem | hmem) | hmem) | hmem
  · revert hmem
    decide
  · cases hname '\n' hmem
  · revert hmem
    decide
  · exact not_mem_hoistedValue v hmem

/-- A line with its semicolon comes to rest. -/
theorem rests_of_line {a : Text} (h : State.after none .code (some ';') a = .code) :
    Rests (a ++ ";\n".toList) := by
  have hafter : ∀ y, State.after none .code y (a ++ ";\n".toList) = .code := by
    intro y
    have hhead : ";\n".toList.head?.or y = some ';' := rfl
    rw [after_append, hhead, h]
    exact after_of_plain (by decide)
  have hlast : (a ++ ";\n".toList).getLast? = some '\n' := getLast?_append_right a (by decide)
  refine ⟨hafter _, hafter _, ?_, ?_⟩ <;> (rw [hlast]; decide)

/-- **The beginning of a block comes to rest** if all values in it fit on a line. -/
theorem rests_declared (hfits : ∀ v ∈ vars, v.Fits) (hnames : ∀ v ∈ vars, ∀ x ∈ v.name, isIdent x = true) :
    Rests (declared vars) := by
  have hroot : Rests ":root \x7b\n".toList := by decide
  unfold declared
  apply hroot.append
  induction vars with
  | nil => exact rests_nil
  | cons v vars ih =>
    rw [List.flatMap_cons]
    have hv := (hfits v List.mem_cons_self).entry (hnames v List.mem_cons_self)
    exact (rests_of_line hv).append (ih (fun u hu => hfits u (List.mem_cons_of_mem v hu))
      fun u hu => hnames u (List.mem_cons_of_mem v hu))

/-- **Behind lines that fit, the line of a value that fits ends in code.** -/
theorem after_declared {above : List Variable} (hfits : ∀ u ∈ above ++ [v], u.Fits)
    (hnames : ∀ u ∈ above ++ [v], ∀ x ∈ u.name, isIdent x = true) :
    State.after none .code (some ';') (declared above ++ v.entry) = .code := by
  have habove : Rests (declared above) :=
    rests_declared (fun u hu => hfits u (List.mem_append_left _ hu)) fun u hu => hnames u (List.mem_append_left _ hu)
  have hv : v ∈ above ++ [v] := List.mem_append_right _ List.mem_cons_self
  have hnonempty : v.entry ≠ [] := by
    unfold Variable.entry
    simp
  rw [after_of_joins (habove.joins _) hnonempty]
  exact (hfits v hv).entry (hnames v hv)

/-- A semicolon that is read in code is shown by the mask. -/
theorem getElem?_of_after {a : Text} (h : State.after none .code (some ';') a = .code) (r : Text) :
    (codeMask (a ++ ';' :: r))[a.length]? = some ';' := by
  rw [codeMask, mask, run_append, List.head?_cons, h,
    List.getElem?_append_right (Nat.le_of_eq (length_piece a)), length_piece, Nat.sub_self, run]
  rfl

/-! ## The block -/

theorem rootBlock_eq (hnames : ∀ v ∈ vars, ∀ x ∈ v.name, isIdent x = true) :
    rootBlock vars = declared vars ++ "\x7d\n\n".toList := by
  unfold rootBlock declared
  have hlines : vars.flatMap Variable.property = vars.flatMap fun v => v.entry ++ ";\n".toList := by
    apply congrArg List.flatten
    apply List.map_congr_left
    intro v hv
    unfold Variable.property Variable.customProperty Variable.entry
    rw [customProperty_of_ident (hnames v hv)]
    simp only [← List.append_assoc]
    rfl
  rw [hlines]

/-- If there are variables, the block is in front of what is left of the sheet. -/
theorem hoist_content (h : (hoist content).vars ≠ []) : (hoist content).content = rootBlock (hoist content).vars ++
    trimLeft (convertUsages (eraseStatements content ((Declaration.find content).map (·.span)))).1 := by
  unfold hoist at h ⊢
  dsimp only at h ⊢
  rw [if_neg]
  rw [List.isEmpty_iff]
  exact h

/-- **The text starts with a block that declares the variables**, one on each line. Where the values of a line and
of those above it fit on one line each, the semicolon at the end of the line is code. -/
structure Declares (out : Text) (vars : List Variable) : Prop where
  block : ∃ body, out = declared vars ++ "\x7d\n".toList ++ body
  lines : ∀ v ∈ vars, '\n' ∉ v.entry
  closed : ∀ above v below, vars = above ++ v :: below → (∀ u ∈ above ++ [v], u.Fits) →
    (codeMask out)[(declared above ++ v.entry).length]? = some ';'

/-- **Each variable gets one complete declaration** in the block in front of the sheet, in the order in which they
are first declared. -/
theorem hoist_declares (h : Declaration.find content ≠ []) :
    (hoist content).vars.map (·.name) = ((Declaration.find content).map (·.name)).eraseDups ∧
      Declares (hoist content).content (hoist content).vars := by
  have hvars : (hoist content).vars = (Variable.fold content (Declaration.find content)).vars := rfl
  have hnames : ∀ v ∈ (hoist content).vars, ∀ x ∈ v.name, isIdent x = true := by
    intro v hv
    obtain ⟨d, hd, hname⟩ := name_of_mem_fold hv
    rw [← hname]
    exact ident_of_mem_find hd
  -- each name that is declared is one of a variable
  have hsome : (hoist content).vars ≠ [] := by
    obtain ⟨d, ds, hfind⟩ := List.exists_cons_of_ne_nil h
    intro hnone
    have hempty := names_fold content (Declaration.find content)
    rw [← hvars, hnone, hfind, List.map_cons, List.eraseDups_cons] at hempty
    cases hempty
  have hcontent : ∃ body, (hoist content).content = declared (hoist content).vars ++ "\x7d\n".toList ++ body := by
    refine ⟨'\n' :: trimLeft (convertUsages (eraseStatements content ((Declaration.find content).map (·.span)))).1, ?_⟩
    rw [hoist_content hsome, rootBlock_eq hnames, List.append_assoc, List.append_assoc]
    rfl
  refine ⟨names_fold content _, hcontent, fun v hv => Variable.not_mem_entry (hnames v hv), ?_⟩
  intro above v below hsplit hfits
  have hmember : ∀ u ∈ above ++ [v], u ∈ (hoist content).vars := by
    intro u hu
    rw [hsplit, List.append_cons]
    exact List.mem_append_left below hu
  have hcode := after_declared hfits fun u hu => hnames u (hmember u hu)
  obtain ⟨body, hbody⟩ := hcontent
  obtain ⟨r, hr⟩ := declared_cut above v below
  rw [hbody, hsplit, hr]
  simp only [List.append_assoc, List.cons_append]
  rw [← List.append_assoc]
  exact getElem?_of_after hcode _

/-- A sheet with a value over two lines, a semicolon in a string and a second declaration. -/
def spreadSheet : Text :=
  "$gap: calc(1px +\n  2px);\n$mark: \"a;b\"; // ends\n$gap: 3px !default;\n.a \x7b b: $gap; \x7d\n".toList

theorem spreadSheet_declared :
    (hoist spreadSheet).vars.map (·.name) = ["gap".toList, "mark".toList] ∧
      ∀ above v below, (hoist spreadSheet).vars = above ++ v :: below →
        (codeMask (hoist spreadSheet).content)[(declared above ++ v.entry).length]? = some ';' := by
  have hfound : Declaration.find spreadSheet ≠ [] := by decide +kernel
  have hfits : ∀ v ∈ (hoist spreadSheet).vars, v.Fits := by decide +kernel
  obtain ⟨hnames, hdeclares⟩ := hoist_declares hfound
  refine ⟨?_, ?_⟩
  · rw [hnames]
    decide +kernel
  · intro above v below hsplit
    apply hdeclares.closed above v below hsplit
    intro u hu
    apply hfits u
    rw [hsplit, List.append_cons]
    exact List.mem_append_left below hu

/-- A sheet with a value that has a comment on its first line. -/
def remarkSheet : Text := "$gap: 4px // base\n  + 2px;\n$b: red;\n".toList

/-- **A comment in a value that is put on one line takes the rest of the line with it**, and the semicolon too: the
declaration runs into the next one. -/
theorem line_comment_hides_semicolon :
    (hoist remarkSheet).content = ":root \x7b\n  --gap: 4px // base + 2px;\n  --b: red;\n\x7d\n\n".toList ∧
      codeMask (hoist remarkSheet).content = ":root \x7b\n  --gap: 4px               \n  --b: red;\n\x7d\n\n".toList := by
  have hcontent : (hoist remarkSheet).content =
      ":root \x7b\n  --gap: 4px // base + 2px;\n  --b: red;\n\x7d\n\n".toList := by decide +kernel
  refine ⟨hcontent, ?_⟩
  rw [hcontent]
  decide +kernel

end Flatsheet.Style
