import Flatsheet.Proofs.Style.Arguments
import Flatsheet.Proofs.Style.Interlace
import Flatsheet.Proofs.Style.References
import Flatsheet.Proofs.Text.Occurrence
import Flatsheet.Style.Expansion

/-!
# `Proofs.Style.Surplus` — how many includes an expansion brings along

What takes the place of an include is made of its arguments and its content block. Most recipes write each of them
once, so what they write has no more `@include` in it than they have (`tokens`). The others write an argument several
times, one of them begins with an argument, and one writes its argument in small letters: what these can bring beyond
that is the surplus of the call (`MixinCall.surplus`).

With it there is a bound for every recipe, every argument and every text around them (`brings_replacement`).
-/

namespace Flatsheet.Style

open Text

variable {a b p q t w : Text} {c : Char} {args : List Text} {call : MixinCall} {i m n : Nat}

/-! ## Tokens -/

/-- The keyword of an include. -/
def includeWord : Text := "@include".toList

/-- **How often the keyword of an include is in a text.** -/
def tokens (t : Text) : Nat := occurrences includeWord t

theorem tokens_gain (a b : Text) : tokens a + tokens b ≤ tokens (a ++ b) := occurrences_append_le includeWord a b

@[simp] theorem tokens_nil : tokens [] = 0 := rfl

/-- Only an at sign begins a keyword. -/
theorem tokens_cons (h : c ≠ '@') (t : Text) : tokens (c :: t) = tokens t := occurrences_cons_of_ne h t

theorem tokens_eq_zero (h : '@' ∉ t) : tokens t = 0 := occurrences_eq_zero h

theorem tokens_append_cons (hc : c ∉ includeWord) (a b : Text) : tokens (a ++ c :: b) = tokens a + tokens b := by
  have hne : c ≠ '@' := by
    rintro rfl
    exact hc List.mem_cons_self
  rw [tokens, occurrences_append_cons hc, ← tokens, ← tokens, tokens_cons hne]

theorem tokens_le_of_contained (h : a <:+: t) : tokens a ≤ tokens t := le_of_contained tokens_gain h

/-- **A piece put into a text** brings its own keywords, and one more if it goes on with a keyword begun before it. -/
theorem tokens_put_le (hshut : Shut includeWord p) (hp : p ≠ []) (u v : Text) :
    tokens (u ++ p ++ v) ≤ tokens u + (tokens p + seam includeWord p) + tokens v := by
  have hback : tokens (u ++ p ++ v) = tokens (u ++ p) + tokens v := by
    apply Shut.occurrences_append
    intro x hx
    rw [List.getLast?_append_of_ne_nil u hp] at hx
    exact hshut x hx
  have hfront : tokens (u ++ p) ≤ tokens u + tokens p + seam includeWord p :=
    occurrences_append_le_add_seam (by decide) u p
  omega

/-! ## Arguments -/

theorem weave_eq_interlace (write : Text → Text) (pieces : List (Text × Text)) (tail : Text) :
    weave write pieces tail = interlace write pieces tail := by
  induction pieces with
  | nil => rfl
  | cons piece pieces ih => rw [weave, interlace, ih]

/-- Converting references brings no keyword. -/
theorem tokens_convertReferences_le (t : Text) : tokens (convertReferences t).1 ≤ tokens t := by
  obtain ⟨pieces, tail, htext, hresult, -⟩ := weave_of_exposed t
  have hle := interlace_le expression reference (fun _ => 0) (fun _ => 0) pieces tail tokens_gain ?_
  · rw [← weave_eq_interlace, ← weave_eq_interlace, ← htext, ← hresult] at hle
    simpa using hle
  · intro g _ u v
    have hwritten : u ++ expression g.2 ++ v = u ++ 'v' :: ('a' :: 'r' :: '(' :: '-' :: '-' :: g.2 ++ ')' :: v) := by
      simp [expression_eq]
    have hname : tokens (reference g.2) = tokens g.2 := tokens_cons (by decide) g.2
    have hput : tokens (u ++ expression g.2 ++ v) = tokens u + (tokens g.2 + tokens v) := by
      rw [hwritten]
      simp (disch := decide) only [tokens_append_cons, tokens_cons, List.cons_append]
    omega

theorem tokens_normalizeArgument_le (t : Text) : tokens (normalizeArgument t) ≤ tokens t := by
  unfold normalizeArgument
  refine Nat.le_trans (tokens_convertReferences_le _) ?_
  split
  · next r =>
    split
    · next v hv =>
      have hsuffix : v <:+ '$' :: r := by
        have hcolon : trimLeft (r.dropWhile isIdent) <:+ r.dropWhile isIdent := List.dropWhile_suffix isBlank
        have hname : r.dropWhile isIdent <:+ r := List.dropWhile_suffix isIdent
        rw [hv] at hcolon
        exact (((List.suffix_cons ':' v).trans hcolon).trans hname).trans (List.suffix_cons '$' r)
      exact Nat.le_trans (trim_le tokens_gain v) (tokens_le_of_contained hsuffix.isInfix)
    · exact Nat.le_refl _
  · exact Nat.le_refl _

theorem sum_normalized_le (parameters : List Text) :
    ((parameters.map normalizeArgument).map tokens).sum ≤ (parameters.map tokens).sum := by
  induction parameters with
  | nil => exact Nat.le_refl _
  | cons p parameters ih =>
    have hp := tokens_normalizeArgument_le p
    simp only [List.map_cons, List.sum_cons]
    omega

theorem tokens_unquote_le (t : Text) : tokens (unquote t) ≤ tokens t := by
  unfold unquote
  split
  · exact tokens_le_of_contained ((List.dropLast_prefix _).isInfix.trans (List.tail_suffix t).isInfix)
  · exact Nat.le_refl _

/-- A missing argument is written as its fallback. -/
theorem tokens_argument_le (args : List Text) (i : Nat) {fallback : Text} (h : '@' ∉ fallback) :
    tokens (argument args i fallback) ≤ tokens (args.getD i []) := by
  rw [argument, List.getD_eq_getElem?_getD]
  cases args[i]? with
  | none => exact Nat.le_of_eq (tokens_eq_zero h)
  | some a =>
    dsimp only
    split
    · rw [tokens_eq_zero h]
      exact Nat.zero_le _
    · exact Nat.le_refl _

/-- A separator has no byte of the keyword. -/
def Separates (separator : Text) : Prop := separator ≠ [] ∧ ∀ c ∈ separator, c ∉ includeWord

instance (separator : Text) : Decidable (Separates separator) :=
  @instDecidableAnd _ _ inferInstance (List.decidableBAll (· ∉ includeWord) separator)

theorem Separates.tokens_append {separator : Text} (h : Separates separator) (a b : Text) :
    tokens (a ++ separator ++ b) = tokens a + tokens b := by
  obtain ⟨hne, hforeign⟩ := h
  have hshut : Shut includeWord (a ++ separator) := by
    intro x hx
    rw [List.getLast?_append_of_ne_nil a hne] at hx
    exact hforeign x (List.mem_of_getLast? hx)
  obtain ⟨c, s, rfl⟩ := List.exists_cons_of_ne_nil hne
  have hnone : tokens s = 0 := tokens_eq_zero fun hmem => hforeign '@' (List.mem_cons_of_mem c hmem) List.mem_cons_self
  have hback : tokens (a ++ c :: s ++ b) = tokens (a ++ c :: s) + tokens b := hshut.occurrences_append b
  rw [hback, tokens_append_cons (hforeign c List.mem_cons_self), hnone]
  rfl

theorem tokens_joinWith {separator : Text} (h : Separates separator) (ts : List Text) :
    tokens (joinWith separator ts) = (ts.map tokens).sum := by
  induction ts with
  | nil => rfl
  | cons t ts ih =>
    cases ts with
    | nil => exact (Nat.add_zero _).symm
    | cons t' ts =>
      rw [List.map_cons, List.sum_cons, ← ih, joinWith_cons _ _ (List.cons_ne_nil t' ts), h.tokens_append]

/-- The arguments that recipes read are different ones. -/
theorem tokens_arguments_le (args : List Text) :
    tokens (args.getD 0 []) + tokens (args.getD 1 []) + tokens (args.getD 2 []) + tokens (args.getD 3 []) ≤
      (args.map tokens).sum := by
  rcases args with _ | ⟨a, _ | ⟨b, _ | ⟨c, _ | ⟨d, args⟩⟩⟩⟩ <;> simp <;> omega

/-! ## Pieces -/

/-- **What a piece brings to each text into which it is put**: at most so many keywords. -/
structure Brings (n : Nat) (p : Text) : Prop where
  nonempty : p ≠ []
  shut : Shut includeWord p
  bound : tokens p + seam includeWord p ≤ n

theorem Brings.put (h : Brings n p) (u v : Text) : tokens (u ++ p ++ v) ≤ tokens u + n + tokens v := by
  have hput := tokens_put_le h.shut h.nonempty u v
  have hbound := h.bound
  omega

theorem Brings.mono (h : Brings m p) (hle : m ≤ n) : Brings n p := ⟨h.nonempty, h.shut, Nat.le_trans h.bound hle⟩

/-- What is behind a piece does not matter to what is before it. -/
theorem Brings.append (h : Brings m p) (hq : Shut includeWord q) (hn : tokens q ≤ n) : Brings (m + n) (p ++ q) := by
  obtain ⟨hnonempty, hshut, hbound⟩ := h
  obtain ⟨front, c, rfl⟩ := (List.eq_nil_or_concat p).resolve_left hnonempty
  rw [List.concat_eq_append] at hshut hbound ⊢
  have hc : c ∉ includeWord := hshut c List.getLast?_concat
  have hseam : seam includeWord (front ++ [c] ++ q) = seam includeWord (front ++ [c]) := by
    rw [seam, seam, List.append_assoc, resumes_append_cons hc, List.singleton_append, resumes_append_cons hc]
  have htokens : tokens (front ++ [c] ++ q) = tokens (front ++ [c]) + tokens q := hshut.occurrences_append q
  refine ⟨by simp, hshut.append hq, ?_⟩
  rw [hseam, htokens]
  omega

/-- A word that brings nothing, wherever it stands. -/
def Inert (w : Text) : Prop := '@' ∉ w ∧ resumes includeWord w = false

instance (w : Text) : Decidable (Inert w) := inferInstanceAs (Decidable (_ ∧ _))

theorem shut_property (name value : Text) : Shut includeWord (property name value) :=
  shut_concat (by decide) _

theorem tokens_property (name value : Text) : tokens (property name value) = tokens name + tokens value := by
  simp (disch := decide) [property, tokens_append_cons]

/-- A declaration brings what its name and its value bring. -/
theorem brings_property (name value : Text) :
    Brings (tokens name + seam includeWord name + tokens value) (property name value) := by
  refine ⟨by simp [property], shut_property name value, ?_⟩
  have hseam : seam includeWord (property name value) = seam includeWord name := by
    simp (disch := decide) [seam, property, resumes_append_cons]
  rw [tokens_property, hseam]
  omega

theorem brings_of_inert {name : Text} (h : Inert name) (value : Text) :
    Brings (tokens value) (property name value) := by
  obtain ⟨hat, hresumes⟩ := h
  refine (brings_property name value).mono ?_
  rw [tokens_eq_zero hat, seam, hresumes]
  simp

theorem tokens_property_append (name value r : Text) :
    tokens (property name value ++ r) = tokens name + tokens value + tokens r := by
  rw [← tokens_property]
  exact (shut_property name value).occurrences_append r

/-! ## The marker -/

theorem prefix_of_breakCommentEnds (hw : '*' ∉ w) (h : w <+: breakCommentEnds t) : w <+: t := by
  induction t using breakCommentEnds.induct generalizing w with
  | case1 r ih =>
    cases w with
    | nil => exact List.nil_prefix
    | cons x w =>
      rw [breakCommentEnds, List.cons_prefix_cons] at h
      obtain ⟨rfl, -⟩ := h
      exact absurd List.mem_cons_self hw
  | case2 c r hend ih =>
    cases w with
    | nil => exact List.nil_prefix
    | cons x w =>
      rw [breakCommentEnds, List.cons_prefix_cons] at h
      · rw [List.cons_prefix_cons]
        exact ⟨h.1, ih (fun hmem => hw (List.mem_cons_of_mem x hmem)) h.2⟩
      · exact hend
  | case3 => exact h

/-- Breaking comment ends up brings no keyword. -/
theorem tokens_breakCommentEnds_le (t : Text) : tokens (breakCommentEnds t) ≤ tokens t := by
  induction t using breakCommentEnds.induct with
  | case1 r ih =>
    rw [breakCommentEnds]
    simp (disch := decide) only [tokens_cons]
    exact ih
  | case2 c r hend ih =>
    have hhere : startsWith (c :: breakCommentEnds r) includeWord = true → startsWith (c :: r) includeWord = true := by
      rw [startsWith, startsWith, List.isPrefixOf_iff_prefix, List.isPrefixOf_iff_prefix]
      intro h
      have hbroken : breakCommentEnds (c :: r) = c :: breakCommentEnds r := by
        rw [breakCommentEnds]
        exact hend
      exact prefix_of_breakCommentEnds (by decide) (hbroken ▸ h)
    rw [breakCommentEnds, tokens, tokens, occurrences, occurrences]
    · split
      · next hbegins =>
        rw [if_pos (hhere hbegins)]
        exact Nat.add_le_add_left ih 1
      · exact Nat.le_trans (Nat.add_le_add_left ih 0) (Nat.add_le_add_right (Nat.zero_le _) _)
    · exact hend
  | case3 => exact Nat.le_refl _

/-- The keywords in what an include says. -/
def MixinCall.tokens (call : MixinCall) : Nat :=
  Style.tokens call.name + (call.parameters.map Style.tokens).sum + Style.tokens (call.block.getD [])

/-- **The marker brings no keyword that the include does not have.** -/
theorem brings_marker (call : MixinCall) : Brings call.tokens call.marker := by
  obtain ⟨arguments, block, hmarker, harguments, hblock⟩ : ∃ arguments block, call.marker =
      "/* TODO: convert mixin ".toList ++ breakCommentEnds (call.name ++ arguments) ++ " manually".toList ++ block ++
        " */".toList ∧
      Style.tokens (call.name ++ arguments) = Style.tokens call.name + (call.parameters.map Style.tokens).sum ∧
      Style.tokens block ≤ Style.tokens (call.block.getD []) := by
    refine ⟨_, _, rfl, ?_, ?_⟩
    · split
      · next hnone =>
        rw [List.isEmpty_iff.1 hnone, List.append_nil]
        rfl
      · have hseparates : Separates ", ".toList := by decide
        rw [← tokens_joinWith hseparates]
        simp (disch := decide) [tokens_append_cons]
    · split
      · next b hb =>
        rw [hb]
        split
        · exact Nat.zero_le _
        · have hbroken := tokens_breakCommentEnds_le b
          simpa (disch := decide) [tokens_append_cons, tokens_cons] using hbroken
      · exact Nat.zero_le _
  have hquoted := tokens_breakCommentEnds_le (call.name ++ arguments)
  rw [hmarker]
  refine ⟨by simp, ?_, ?_⟩
  · intro x hx
    rw [List.getLast?_append_of_ne_nil _ (by decide)] at hx
    cases hx
    decide
  · have hseam : seam includeWord ("/* TODO: convert mixin ".toList ++ breakCommentEnds (call.name ++ arguments) ++
        " manually".toList ++ block ++ " */".toList) = 0 := by
      simp (disch := decide) [seam, resumes_cons]
    have htokens : Style.tokens ("/* TODO: convert mixin ".toList ++ breakCommentEnds (call.name ++ arguments) ++
        " manually".toList ++ block ++ " */".toList) =
          Style.tokens (breakCommentEnds (call.name ++ arguments)) + Style.tokens block := by
      simp (disch := decide) [tokens_append_cons, tokens_cons]
    rw [hseam, htokens, MixinCall.tokens]
    omega

/-! ## The recipes -/

/-- The edges at which centring writes its amount twice. In both directions it writes it four times. -/
def namedEdges : List Text := ["top", "bottom", "left", "right"].map String.toList

/-- **The keywords that a recipe can write beyond those of the include**: it repeats an argument, begins with one, or
writes one in small letters. -/
def Recipe.surplus (r : Recipe) (call : MixinCall) (args : List Text) : Nat :=
  match r with
  | .oneFor names _ => (names.length - 1) * tokens (args.getD 0 [])
  | .centering => (if argument args 0 "top".toList ∈ namedEdges then 1 else 3) * tokens (args.getD 1 [])
  | .gradient _ => tokens (args.getD 0 [])
  | .calculation => seam includeWord (args.getD 0 [])
  | .media => tokens (lower (call.parameters.getD 0 [])) - tokens (call.parameters.getD 0 [])
  | _ => 0

/-- The surplus of a call. The marker has none. -/
def MixinCall.surplus (call : MixinCall) : Nat :=
  match recipes.lookup call.name with
  | some r => r.surplus call (call.parameters.map normalizeArgument)
  | none => 0

/-- **The words of a recipe bring no keyword**, and those with which it begins go on with none. -/
def Recipe.Quiet : Recipe → Prop
  | .fixed text => Inert text ∧ (text.getLast? = some ';' ∨ text.getLast? = some '\x7d')
  | .spaced name => Inert name
  | .commas name => Inert name
  | .pair name => Inert name
  | .oneFor names fallback => names ≠ [] ∧ (∀ name ∈ names, Inert name) ∧ '@' ∉ fallback
  | .gradient direction => '@' ∉ direction
  | .placed position => '@' ∉ position
  | _ => True

instance : (r : Recipe) → Decidable r.Quiet
  | .fixed _ => inferInstanceAs (Decidable (_ ∧ _))
  | .spaced name => inferInstanceAs (Decidable (Inert name))
  | .commas name => inferInstanceAs (Decidable (Inert name))
  | .pair name => inferInstanceAs (Decidable (Inert name))
  | .oneFor names _ =>
    @instDecidableAnd _ _ inferInstance (@instDecidableAnd _ _ (List.decidableBAll Inert names) inferInstance)
  | .gradient _ => inferInstanceAs (Decidable (_ ∉ _))
  | .placed _ => inferInstanceAs (Decidable (_ ∉ _))
  | .rotation => isTrue trivial
  | .filter => isTrue trivial
  | .calculation => isTrue trivial
  | .centering => isTrue trivial
  | .layer => isTrue trivial
  | .translucent => isTrue trivial
  | .placeholder => isTrue trivial
  | .media => isTrue trivial

theorem recipes_quiet : ∀ entry ∈ recipes, entry.2.Quiet := by decide +kernel

/-- Several declarations with one value. -/
theorem brings_oneFor {names : List Text} (hne : names ≠ []) (hinert : ∀ name ∈ names, Inert name) (value : Text) :
    Brings (tokens value + (names.length - 1) * tokens value) (names.flatMap fun name => property name value) := by
  obtain ⟨name, names, rfl⟩ := List.exists_cons_of_ne_nil hne
  have hmany : ∀ ns : List Text, (∀ n ∈ ns, Inert n) → Shut includeWord (ns.flatMap fun n => property n value) ∧
      tokens (ns.flatMap fun n => property n value) = ns.length * tokens value := by
    intro ns hns
    induction ns with
    | nil => exact ⟨shut_nil, (Nat.zero_mul _).symm⟩
    | cons n ns ih =>
      obtain ⟨hshut, htokens⟩ := ih fun m hm => hns m (List.mem_cons_of_mem n hm)
      rw [List.flatMap_cons, tokens_property_append, htokens, tokens_eq_zero (hns n List.mem_cons_self).1]
      refine ⟨(shut_property n value).append hshut, ?_⟩
      rw [List.length_cons, Nat.succ_mul]
      omega
  obtain ⟨hshut, htokens⟩ := hmany names fun n hn => hinert n (List.mem_cons_of_mem name hn)
  exact (brings_of_inert (hinert name List.mem_cons_self) value).append hshut (Nat.le_of_eq htokens)

/-- The declarations that centre an element. -/
theorem brings_centered (edge amount : Text) :
    Brings (tokens amount + (if edge ∈ namedEdges then 1 else 3) * tokens amount) (centered edge amount) := by
  generalize hcopies : (if edge ∈ namedEdges then 1 else 3) = copies
  have hposition : Brings 0 (property "position".toList "absolute".toList) :=
    (brings_of_inert (by decide) "absolute".toList).mono (by decide)
  have hbehind : ∀ {rest : Text} {n : Nat}, Shut includeWord rest → tokens rest = n →
      Brings n (property "position".toList "absolute".toList ++ rest) := fun hshut htokens =>
    (hposition.append hshut (Nat.le_of_eq htokens)).mono (by omega)
  -- at a named edge the amount is the distance from the edge and that of the move back
  have hmoved : ∀ value : Text, tokens value = tokens amount → edge ∈ namedEdges → '@' ∉ edge →
      Brings (tokens amount + copies * tokens amount) (property "position".toList "absolute".toList ++
          (property edge amount ++ property "transform".toList value)) := by
    intro value hvalue hnamed hat
    apply hbehind ((shut_property _ _).append (shut_property _ _))
    rw [← hcopies, if_pos hnamed, tokens_property_append, tokens_property, hvalue, tokens_eq_zero hat,
      tokens_eq_zero (t := "transform".toList) (by decide)]
    omega
  unfold centered
  dsimp only
  split_ifs with htop hbottom hleft hright
  · refine hmoved _ ?_ (htop ▸ by decide) (htop ▸ by decide)
    simp (disch := decide) [tokens_append_cons, tokens_cons]
  · refine hmoved _ ?_ (hbottom ▸ by decide) (hbottom ▸ by decide)
    simp (disch := decide) [tokens_append_cons, tokens_cons]
  · refine hmoved _ ?_ (hleft ▸ by decide) (hleft ▸ by decide)
    simp (disch := decide) [tokens_append_cons, tokens_cons]
  · refine hmoved _ ?_ (hright ▸ by decide) (hright ▸ by decide)
    simp (disch := decide) [tokens_append_cons, tokens_cons]
  · have hnamed : edge ∉ namedEdges := by
      simp only [namedEdges, List.map_cons, List.map_nil, List.mem_cons, List.not_mem_nil, or_false, not_or]
      exact ⟨htop, hbottom, hleft, hright⟩
    rw [← hcopies, if_neg hnamed, List.append_assoc]
    apply hbehind ((shut_property _ _).append ((shut_property _ _).append (shut_property _ _)))
    rw [tokens_property_append, tokens_property_append, tokens_property]
    simp (disch := decide) [tokens_append_cons, tokens_cons]
    omega

/-- A declaration that is left out if its value is missing. -/
theorem side_le (args : List Text) {name : Text} (i : Nat) (hat : '@' ∉ name) {side : Text}
    (hside : side = [] ∨ side = property name (argument args i [])) :
    Shut includeWord side ∧ tokens side ≤ tokens (args.getD i []) := by
  rcases hside with rfl | rfl
  · exact ⟨shut_nil, Nat.zero_le _⟩
  · rw [tokens_property, tokens_eq_zero hat, Nat.zero_add]
    exact ⟨shut_property _ _, tokens_argument_le args i List.not_mem_nil⟩

/-- A number has no at sign. -/
theorem not_mem_ofInt (z : Int) : '@' ∉ Text.ofInt z := by
  have hdigits : ∀ n : Nat, '@' ∉ Text.ofNat n := by
    intro n hmem
    rw [Text.ofNat, Nat.toList_repr] at hmem
    cases Nat.isDigit_of_mem_toDigits (by decide) (by decide) hmem
  unfold Text.ofInt
  split
  · exact List.not_mem_cons_of_ne_of_not_mem (by decide) (hdigits _)
  · exact hdigits _

theorem tokens_lower_trim_le (t : Text) : tokens (lower (trim t)) ≤ tokens (lower t) := by
  refine trim_le (μ := fun t => tokens (lower t)) ?_ t
  intro a b
  rw [lower, lower, lower, List.map_append]
  exact tokens_gain _ _

theorem mem_of_lookup_eq {α β : Type} [BEq α] [LawfulBEq α] {entries : List (α × β)} {key : α} {value : β}
    (h : entries.lookup key = some value) : (key, value) ∈ entries := by
  obtain ⟨front, back, rfl, -⟩ := List.lookup_eq_some_iff.1 h
  exact List.mem_append_right front List.mem_cons_self

/-- The query of a breakpoint is a named one, or has the breakpoint in small letters. -/
theorem tokens_mediaQuery_le {breakpoint query : Text} (h : mediaQuery? breakpoint = some query) :
    tokens query ≤ tokens (lower breakpoint) := by
  have hnamed : ∀ entry ∈ breakpoints, '@' ∉ entry.2 := by decide
  unfold mediaQuery? at h
  dsimp only at h
  split at h
  · next named hlookup =>
    cases h
    rw [tokens_eq_zero (hnamed _ (mem_of_lookup_eq hlookup))]
    exact Nat.zero_le _
  · split at h
    · cases h
      have hless := tokens_lower_trim_le breakpoint
      simpa (disch := decide) [tokens_append_cons, tokens_cons] using hless
    · cases h

/-- The block of a breakpoint in its media query. -/
theorem brings_media (query block : Text) :
    Brings (tokens query + tokens block)
      ("@media ".toList ++ query ++ "\x7b".toList ++ (convertReferences block).1 ++ "\x7d".toList) := by
  have hblock := tokens_convertReferences_le block
  refine ⟨by simp, shut_concat (by decide) _, ?_⟩
  have hword : ∀ r, tokens ("@media ".toList ++ r) = tokens r := by
    intro r
    have hhere : startsWith ('@' :: 'm' :: ("edia ".toList ++ r)) includeWord = false := rfl
    show (if startsWith ('@' :: 'm' :: ("edia ".toList ++ r)) includeWord = true then 1 else 0) +
      tokens ('m' :: ("edia ".toList ++ r)) = _
    rw [hhere]
    simp (disch := decide) [tokens_cons]
  have hseam : ∀ r, seam includeWord ("@media ".toList ++ r) = 0 := by
    intro r
    simp (disch := decide) [seam, resumes_cons]
  simp only [List.append_assoc]
  rw [hword, hseam]
  simp (disch := decide) [tokens_append_cons]
  omega

/-- A declaration whose name brings nothing. -/
theorem brings_value {name value : Text} (h : Inert name) (hle : tokens value ≤ n) : Brings n (property name value) :=
  (brings_of_inert h value).mono hle

/-- A text that is always the same brings nothing. -/
theorem brings_fixed (h : Inert p) (hends : p.getLast? = some ';' ∨ p.getLast? = some '\x7d') : Brings 0 p := by
  obtain ⟨hat, hresumes⟩ := h
  have hnonempty : p ≠ [] := by
    rintro rfl
    rcases hends with hends | hends <;> cases hends
  have hshut : Shut includeWord p := by
    intro x hx
    rcases hends with hends | hends <;> (rw [hends] at hx; cases hx; decide)
  refine ⟨hnonempty, hshut, ?_⟩
  rw [tokens_eq_zero hat, seam, hresumes]
  exact Nat.le_refl 0

/-- A layer is written as its number or as its name. -/
theorem brings_layer {text : Text} (h : Recipe.layer.expand call args = some text) :
    Brings (tokens (args.headD [])) text := by
  simp only [Recipe.expand] at h
  split at h
  · cases h
  · split at h
    · cases h
      apply brings_value (by decide)
      rw [tokens_eq_zero (not_mem_ofInt _)]
      exact Nat.zero_le _
    · cases h
      exact brings_value (by decide) (tokens_unquote_le _)

/-- A position, and the sides whose distances are there. -/
theorem brings_placed {position text : Text} (hat : '@' ∉ position)
    (h : (Recipe.placed position).expand call args = some text) : Brings (args.map tokens).sum text := by
  cases h
  have hposition : Brings 0 (property "position".toList position) :=
    brings_value (by decide) (Nat.le_of_eq (tokens_eq_zero hat))
  have hside : ∀ (name : Text) (i : Nat) (missing : Bool), '@' ∉ name →
      Shut includeWord (if missing = true then [] else property name (argument args i [])) ∧
        tokens (if missing = true then [] else property name (argument args i [])) ≤ tokens (args.getD i []) :=
    fun name i _ hat => side_le args i hat (ite_eq_or_eq _ _ _)
  obtain ⟨hshut₀, htop⟩ := hside "top".toList 0 _ (by decide)
  obtain ⟨hshut₁, hright⟩ := hside "right".toList 1 _ (by decide)
  obtain ⟨hshut₂, hbottom⟩ := hside "bottom".toList 2 _ (by decide)
  obtain ⟨hshut₃, hleft⟩ := hside "left".toList 3 _ (by decide)
  have hall := (((hposition.append hshut₀ htop).append hshut₁ hright).append hshut₂ hbottom).append hshut₃ hleft
  have harguments := tokens_arguments_le args
  exact hall.mono (by omega)

/-- The rule of a breakpoint is made of the include itself, and of its breakpoint in small letters. -/
theorem brings_breakpoint {text : Text} (h : Recipe.media.expand call args = some text) :
    Brings (call.tokens + Recipe.media.surplus call args) text := by
  simp only [Recipe.expand] at h
  split at h
  · next breakpoint block hbreakpoint hblock =>
    obtain ⟨query, hquery, rfl⟩ := Option.map_eq_some_iff.1 h
    have hlowered := tokens_mediaQuery_le hquery
    obtain ⟨others, hothers⟩ := List.head?_eq_some_iff.1 hbreakpoint
    have hparameters : tokens breakpoint + tokens block ≤ call.tokens := by
      rw [MixinCall.tokens, hothers, hblock, List.map_cons, List.sum_cons, Option.getD_some]
      omega
    have hsurplus : Recipe.media.surplus call args = tokens (lower breakpoint) - tokens breakpoint := by
      rw [Recipe.surplus, hothers]
      rfl
    refine (brings_media query block).mono ?_
    rw [hsurplus]
    omega
  · cases h

/-- **Each recipe brings no more than its include has and its surplus.** -/
theorem Recipe.Quiet.brings {r : Recipe} (hr : r.Quiet) {text : Text}
    (h : r.expand call (call.parameters.map normalizeArgument) = some text) :
    Brings (call.tokens + r.surplus call (call.parameters.map normalizeArgument)) text := by
  have hnormalized := sum_normalized_le call.parameters
  generalize call.parameters.map normalizeArgument = args at h hnormalized ⊢
  have hcall : (args.map tokens).sum ≤ call.tokens := by
    rw [MixinCall.tokens]
    omega
  have harguments := tokens_arguments_le args
  have hfirst : args.headD [] = args.getD 0 [] := by cases args <;> rfl
  -- one case for each recipe; most of them write one declaration made of their arguments
  cases r with
  | fixed text =>
    cases h
    exact (brings_fixed hr.1 hr.2).mono (Nat.zero_le _)
  | spaced name =>
    simp only [Recipe.expand] at h
    split at h
    · cases h
    · cases h
      apply brings_value hr
      rw [tokens_joinWith (by decide)]
      omega
  | commas name =>
    simp only [Recipe.expand] at h
    split at h
    · cases h
    · cases h
      apply brings_value hr
      rw [tokens_joinWith (by decide)]
      omega
  | pair name =>
    simp only [Recipe.expand, hfirst] at h
    split at h
    · cases h
    · cases h
      apply brings_value hr
      simp (disch := decide) [tokens_append_cons, -List.getD_eq_getElem?_getD]
      omega
  | oneFor names fallback =>
    cases h
    obtain ⟨hne, hinert, hat⟩ := hr
    have hvalue := tokens_argument_le args 0 hat
    have hmany := Nat.mul_le_mul_left (names.length - 1) hvalue
    refine (brings_oneFor hne hinert _).mono ?_
    rw [Recipe.surplus]
    omega
  | rotation =>
    simp only [Recipe.expand, hfirst] at h
    split at h
    · cases h
    · cases h
      apply brings_value (by decide)
      simp (disch := decide) [tokens_append_cons, tokens_cons, -List.getD_eq_getElem?_getD]
      omega
  | filter =>
    simp only [Recipe.expand, hfirst] at h
    split at h
    · cases h
    · cases h
      apply brings_value (by decide)
      simp (disch := decide) [tokens_append_cons, -List.getD_eq_getElem?_getD]
      omega
  | calculation =>
    simp only [Recipe.expand, hfirst] at h
    split at h
    · cases h
    · cases h
      refine (brings_property _ _).mono ?_
      simp (disch := decide) [tokens_append_cons, tokens_cons, Recipe.surplus, -List.getD_eq_getElem?_getD]
      omega
  | centering =>
    cases h
    have hfallback : '@' ∉ "50%".toList := by decide
    have hamount := tokens_argument_le args 1 hfallback
    have hmany := Nat.mul_le_mul_left (if argument args 0 "top".toList ∈ namedEdges then 1 else 3) hamount
    refine (brings_centered _ _).mono ?_
    rw [Recipe.surplus]
    omega
  | layer =>
    have hname := brings_layer h
    rw [hfirst] at hname
    exact hname.mono (by omega)
  | translucent =>
    simp only [Recipe.expand, hfirst] at h
    split at h
    · cases h
    · cases h
      apply brings_value (by decide)
      simp (disch := decide) [tokens_append_cons, tokens_cons, -List.getD_eq_getElem?_getD]
      omega
  | gradient direction =>
    simp only [Recipe.expand, hfirst] at h
    split at h
    · cases h
    · cases h
      have hfront : Brings (tokens (args.getD 0 [])) (property "background-color".toList (args.getD 0 [])) :=
        brings_of_inert (by decide) _
      refine (hfront.append (shut_property _ _) (Nat.le_refl _)).mono ?_
      rw [tokens_property, Recipe.surplus]
      simp (disch := decide) [tokens_append_cons, tokens_cons, tokens_eq_zero hr, -List.getD_eq_getElem?_getD]
      omega
  | placed position => exact (brings_placed hr h).mono (by omega)
  | placeholder =>
    simp only [Recipe.expand, hfirst] at h
    split at h
    · cases h
    · cases h
      refine ⟨by simp, shut_concat (by decide) _, ?_⟩
      simp (disch := decide) [tokens_append_cons, tokens_cons, seam, resumes_cons, property, -List.getD_eq_getElem?_getD]
      omega
  | media => exact brings_breakpoint h

/-- **What takes the place of an include brings no more keywords than the include has and its surplus.** -/
theorem brings_replacement (call : MixinCall) : Brings (call.tokens + call.surplus) call.replacement := by
  unfold MixinCall.replacement MixinCall.expand? MixinCall.surplus
  cases hlookup : recipes.lookup call.name with
  | none => exact brings_marker call
  | some r =>
    have hquiet : r.Quiet := recipes_quiet _ (mem_of_lookup_eq hlookup)
    rw [Option.bind_some]
    cases hexpand : r.expand call (call.parameters.map normalizeArgument) with
    | none => exact (brings_marker call).mono (Nat.le_add_right _ _)
    | some text => exact hquiet.brings hexpand

end Flatsheet.Style
