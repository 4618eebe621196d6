import Flatsheet.Proofs.Check.Braces
import Flatsheet.Style.Variable
import Mathlib.Data.List.Induction

/-!
# `Proofs.Style.Redeclaration` — what several declarations of one name mean

Declarations are folded into variables one after the other, and the fold changes variables that it has made
before. What comes out can be said without the fold: a variable has its place and its default flag from the
first declaration of its name (`Declaration.first?`), and its value from the last one that is not a default, if
there is one (`Declaration.deciding?`).

The fold and the syntax check look for names that are declared again in two loops of their own, the fold among the
variables that it has made and the check in a list of names that it keeps. Both find the same declarations
(`redeclarations`).

* `names_fold`: there is one variable for each name, in the order of the first declarations
* `means_fold`: each variable is what the declarations of its name say
* `extract_folds`: both together, with the warnings of the fold and those of the check
-/

namespace Flatsheet.Style

open Text Check

variable {content : Text} {v : Variable} {ds : List Declaration} {d e : Declaration} {name : Text}

/-! ## What declarations say -/

/-- The first declaration of a name. -/
def Declaration.first? (ds : List Declaration) (name : Text) : Option Declaration :=
  ds.find? (·.name = name)

/-- The declaration that a name has its value from: the last one that is not a default, or the first one if all
are defaults. -/
def Declaration.deciding? (ds : List Declaration) (name : Text) : Option Declaration :=
  (ds.filter fun d => d.name = name && !d.isDefault).getLast?.or (first? ds name)

/-- The declarations, other than defaults, of names that are declared before them. -/
def redeclarations (ds : List Declaration) : List Declaration :=
  (ds.zipIdx.filter fun (d, i) => !d.isDefault && (ds.take i).any (·.name = d.name)).map (·.1)

/-- **The variable is what the declarations of its name say.** -/
structure Variable.Means (content : Text) (ds : List Declaration) (v : Variable) : Prop where
  place : ∃ d, Declaration.first? ds v.name = some d ∧
    v.line = lineNumberAt content d.span.start ∧ v.isDefault = d.isDefault
  value : ∃ d, Declaration.deciding? ds v.name = some d ∧
    v.value = d.value ∧ v.kind = .of d.value ∧ v.dependencies = references d.value

/-! ## One more declaration -/

namespace Declaration

theorem first?_concat_of_some (h : first? ds name = some e) : first? (ds ++ [d]) name = some e := by
  unfold first? at h ⊢
  rw [List.find?_append, h]
  rfl

theorem first?_concat_self (h : first? ds d.name = none) : first? (ds ++ [d]) d.name = some d := by
  unfold first? at h ⊢
  rw [List.find?_append, h]
  simp

/-- A declaration of another name, and a default, decide nothing where there is a declaration already. -/
theorem deciding?_concat_of_some (h : first? ds name = some e) (hd : d.name ≠ name ∨ d.isDefault = true) :
    deciding? (ds ++ [d]) name = deciding? ds name := by
  have hskipped : ([d].filter fun d => d.name = name && !d.isDefault) = [] := by
    rcases hd with hd | hd <;> simp [hd]
  unfold deciding?
  rw [List.filter_append, hskipped, List.append_nil, first?_concat_of_some h, h]

/-- A declaration that is not a default decides. -/
theorem deciding?_concat_self (ds : List Declaration) (hd : d.isDefault = false) :
    deciding? (ds ++ [d]) d.name = some d := by
  unfold deciding?
  rw [List.filter_append]
  simp [hd]

/-- The first declaration of a name decides. -/
theorem deciding?_concat_first (h : first? ds d.name = none) : deciding? (ds ++ [d]) d.name = some d := by
  cases hd : d.isDefault with
  | false => exact deciding?_concat_self ds hd
  | true =>
    have hnone : ((ds ++ [d]).filter fun e => e.name = d.name && !e.isDefault) = [] := by
      unfold first? at h
      rw [List.find?_eq_none] at h
      rw [List.filter_append]
      simp_all
    unfold deciding?
    rw [hnone, first?_concat_self h]
    rfl

end Declaration

theorem redeclarations_concat (ds : List Declaration) (d : Declaration) : redeclarations (ds ++ [d]) =
    redeclarations ds ++ if !d.isDefault && ds.any (·.name = d.name) then [d] else [] := by
  have hbefore : (ds.zipIdx.filter fun (e, i) => !e.isDefault && ((ds ++ [d]).take i).any (·.name = e.name)) =
      ds.zipIdx.filter fun (e, i) => !e.isDefault && (ds.take i).any (·.name = e.name) := by
    apply List.filter_congr
    rintro ⟨e, i⟩ he
    have hi : i ≤ ds.length := Nat.le_of_lt (by simpa using List.snd_lt_of_mem_zipIdx he)
    show (!e.isDefault && ((ds ++ [d]).take i).any _) = (!e.isDefault && (ds.take i).any _)
    rw [List.take_append_of_le_length hi]
  unfold redeclarations
  rw [List.zipIdx_append, List.filter_append, List.map_append, hbefore]
  congr 1
  simp only [List.zipIdx_singleton, Nat.zero_add, List.filter_cons, List.filter_nil,
    List.take_left' rfl]
  split <;> rfl

/-! ## The fold -/

theorem fold_concat (content : Text) (ds : List Declaration) (d : Declaration) :
    Variable.fold content (ds ++ [d]) = (Variable.fold content ds).declare content d := by
  unfold Variable.fold
  rw [List.foldl_append]
  rfl

/-- One more declaration makes a variable if its name is new. -/
theorem names_declare (content : Text) (f : Variable.Folded) (d : Declaration) :
    (f.declare content d).vars.map (·.name) =
      f.vars.map (·.name) ++ if d.name ∈ f.vars.map (·.name) then [] else [d.name] := by
  have hknown : f.vars.any (·.name = d.name) = true ↔ d.name ∈ f.vars.map (·.name) := by
    simp [List.any_eq_true]
  unfold Variable.Folded.declare
  split
  · next hany =>
    rw [if_pos (hknown.1 hany), List.append_nil]
    split
    · rfl
    · show (f.vars.map _).map _ = _
      rw [List.map_map]
      apply List.map_congr_left
      intro v _
      show (if v.name = d.name then { v with value := d.value } else v).name = v.name
      split <;> rfl
  · next hany =>
    rw [if_neg fun hmem => hany (hknown.2 hmem)]
    show (f.vars ++ [Variable.ofDeclaration content d]).map _ = _
    rw [List.map_append]
    rfl

/-- **There is one variable for each declared name**, in the order of the first declarations. -/
theorem names_fold (content : Text) (ds : List Declaration) :
    (Variable.fold content ds).vars.map (·.name) = (ds.map (·.name)).eraseDups := by
  induction ds using List.reverseRecOn with
  | nil => rfl
  | append_singleton ds d ih =>
    have hsame : d.name ∈ (ds.map (·.name)).eraseDups ↔ d.name ∈ ds.map (·.name) := List.mem_eraseDups
    rw [fold_concat, names_declare, ih, List.map_append, List.eraseDups_append]
    simp only [List.map_cons, List.map_nil, List.removeAll, List.filter_cons, List.filter_nil, List.elem_eq_mem]
    by_cases hknown : d.name ∈ ds.map (·.name)
    · rw [if_pos (hsame.2 hknown), decide_eq_true hknown]
      rfl
    · rw [if_neg fun hmem => hknown (hsame.1 hmem), decide_eq_false hknown]
      rfl

theorem name_of_mem_fold (h : v ∈ (Variable.fold content ds).vars) : ∃ d ∈ ds, d.name = v.name := by
  have hname := List.mem_map_of_mem (f := (·.name)) h
  rw [names_fold, List.mem_eraseDups] at hname
  exact List.mem_map.1 hname

/-- The fold has a variable of a name if there is a declaration of it. -/
theorem any_fold (content : Text) (ds : List Declaration) (name : Text) :
    (Variable.fold content ds).vars.any (·.name = name) = ds.any (·.name = name) := by
  have hmem : name ∈ (Variable.fold content ds).vars.map (·.name) ↔ name ∈ ds.map (·.name) := by
    rw [names_fold, List.mem_eraseDups]
  rw [Bool.eq_iff_iff, List.any_eq_true, List.any_eq_true]
  simpa [List.mem_map] using hmem

theorem first?_of_not_any (h : ds.any (·.name = name) = false) : Declaration.first? ds name = none := by
  rw [List.any_eq_false] at h
  exact List.find?_eq_none.2 h

/-- What a variable means stays, unless one more declaration decides on its name. -/
theorem Variable.Means.concat (h : v.Means content ds) (hd : d.name ≠ v.name ∨ d.isDefault = true) :
    v.Means content (ds ++ [d]) := by
  obtain ⟨first, hfirst, hplace⟩ := h.place
  obtain ⟨deciding, hdeciding, hvalue⟩ := h.value
  constructor
  · exact ⟨first, Declaration.first?_concat_of_some hfirst, hplace⟩
  · exact ⟨deciding, (Declaration.deciding?_concat_of_some hfirst hd).trans hdeciding, hvalue⟩

/-- A later declaration that is not a default gives the variable its value. -/
theorem Variable.Means.redeclared (h : v.Means content ds) (hname : d.name = v.name)
    (hd : d.isDefault = false) : Variable.Means content (ds ++ [d]) { v with value := d.value } := by
  obtain ⟨first, hfirst, hplace⟩ := h.place
  constructor
  · exact ⟨first, Declaration.first?_concat_of_some hfirst, hplace⟩
  · have hdeciding := Declaration.deciding?_concat_self ds hd
    rw [hname] at hdeciding
    exact ⟨d, hdeciding, rfl, rfl, rfl⟩

/-- The first declaration of a name makes the variable. -/
theorem means_ofDeclaration (h : Declaration.first? ds d.name = none) :
    (Variable.ofDeclaration content d).Means content (ds ++ [d]) := by
  constructor
  · exact ⟨d, Declaration.first?_concat_self h, rfl, rfl⟩
  · exact ⟨d, Declaration.deciding?_concat_first h, rfl, rfl, rfl⟩

/-- **Each variable is what the declarations of its name say.** -/
theorem means_fold (content : Text) (ds : List Declaration) :
    ∀ v ∈ (Variable.fold content ds).vars, v.Means content ds := by
  induction ds using List.reverseRecOn with
  | nil => exact nofun
  | append_singleton ds d ih =>
    intro v hv
    rw [fold_concat] at hv
    have hknown := any_fold content ds d.name
    unfold Variable.Folded.declare at hv
    split at hv
    · split at hv
      · next hdefault => exact (ih v hv).concat (.inr hdefault)
      · next hdefault =>
        obtain ⟨u, hu, rfl⟩ := List.mem_map.1 hv
        split
        · next hname => exact (ih u hu).redeclared hname.symm (Bool.eq_false_iff.2 hdefault)
        · next hname => exact (ih u hu).concat (.inl (Ne.symm hname))
    · next hnew =>
      have hnone : ds.any (·.name = d.name) = false := by rw [← hknown, Bool.eq_false_iff.2 hnew]
      rcases List.mem_append.1 hv with hv | hv
      · have hother : d.name ≠ v.name := fun hname =>
          hnew (List.any_eq_true.2 ⟨v, hv, decide_eq_true hname.symm⟩)
        exact (ih v hv).concat (.inl hother)
      · rw [List.mem_singleton.1 hv]
        exact means_ofDeclaration (first?_of_not_any hnone)

/-! ## Redeclarations -/

/-- The fold finds the redeclarations. -/
theorem redeclared_fold (content : Text) (ds : List Declaration) :
    (Variable.fold content ds).redeclared = redeclarations ds := by
  induction ds using List.reverseRecOn with
  | nil => rfl
  | append_singleton ds d ih =>
    rw [fold_concat, redeclarations_concat, ← any_fold content, ← ih]
    unfold Variable.Folded.declare
    cases d.isDefault <;> split <;> simp_all

theorem repeated_concat (names : List Text) (ds : List Declaration) (d : Declaration) :
    repeated names (ds ++ [d]) = repeated names ds ++
      if !d.isDefault && (names.contains d.name || ds.any (·.name = d.name)) then [d] else [] := by
  -- along the declarations: a name that is met is among those that are kept from there on
  induction ds generalizing names with
  | nil =>
    simp only [List.nil_append, repeated, List.any_nil, Bool.or_false]
    cases names.contains d.name <;> cases d.isDefault <;> rfl
  | cons e ds ih =>
    rw [List.cons_append, repeated, repeated, List.any_cons]
    by_cases hknown : names.contains e.name = true
    · have hsame : (names.contains d.name || (decide (e.name = d.name) || ds.any (·.name = d.name))) =
          (names.contains d.name || ds.any (·.name = d.name)) := by
        by_cases hname : e.name = d.name
        · rw [← hname, hknown, Bool.true_or, Bool.true_or]
        · rw [decide_eq_false hname, Bool.false_or]
      rw [if_pos hknown, if_pos hknown, ih, hsame]
      split <;> rfl
    · have hkept : (e.name :: names).contains d.name = (decide (e.name = d.name) || names.contains d.name) := by
        simp [eq_comm]
      rw [if_neg hknown, if_neg hknown, ih, hkept, Bool.or_left_comm, Bool.or_assoc]

/-- The syntax check finds the redeclarations. -/
theorem repeated_eq (ds : List Declaration) : repeated [] ds = redeclarations ds := by
  induction ds using List.reverseRecOn with
  | nil => rfl
  | append_singleton ds d ih =>
    rw [repeated_concat, redeclarations_concat, ih]
    rfl

/-- **Declarations fold into the variables that they mean, and both loops that look for names declared again find
the same declarations**, in the same order: the fold warns of each with its line, and the check reports it with that
line. -/
theorem extract_folds (content : Text) :
    let ds := Declaration.find content
    let vars := (Variable.extract content).1
    vars.map (·.name) = (ds.map (·.name)).eraseDups ∧
    (∀ v ∈ vars, v.Means content ds) ∧
    (Variable.extract content).2 =
      (redeclarations ds).map (Variable.redeclaredNote content) ++ vars.flatMap (Variable.undeclaredNotes vars) ∧
    (checkSyntax content).1.issues.filter (·.kind = .variableRedeclared) =
      (redeclarations ds).map fun d => ⟨.variableRedeclared, '$' :: d.name ++ " is declared more than once".toList,
        some (lineNumberAt content d.span.start), none⟩ := by
  intro ds vars
  refine ⟨names_fold content ds, means_fold content ds, ?_, ?_⟩
  · show (Variable.fold content ds).notes content = _
    unfold Variable.Folded.notes
    rw [redeclared_fold]
    rfl
  · rw [← repeated_eq]
    exact issues_redeclared content

end Flatsheet.Style
