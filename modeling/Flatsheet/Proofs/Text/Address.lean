import Flatsheet.Proofs.Text.Seam

/-!
# `Proofs.Text.Address` — comment marks in the address of a `url(…)`

The address in an unquoted `url(…)` is code, and slashes and stars are ordinary bytes of it. The automaton
knows nothing of `url`: it decides by two neighbouring bytes, and by the one before them for the colon of
`http://`. So the address is read as code exactly if no comment mark is in it, and a mark is `/*` anywhere or
`//` that no colon precedes (`MarksComment`). The scheme of an address is no mark, but an address that begins
with `//`, one with an empty authority and one with a doubled slash in its path have one.

The main result is `url_shown_iff`; `hostAddress_blanked` is the address for which `url(…)` is not code.
-/

namespace Flatsheet.Mask

open Text

variable {mode : Mode} {before ahead : Option Char} {c : Char} {r t : Text}

/-! ## Comment marks -/

/-- **A comment mark is in the text**, which stands behind the byte `before`: `/*`, or `//` with no colon
before it. -/
def MarksComment (before : Option Char) (t : Text) : Prop :=
  ∃ p q, t = p ++ '/' :: '*' :: q ∨ t = p ++ '/' :: '/' :: q ∧ p.getLast?.or before ≠ some ':'

/-- The text begins with a comment mark. -/
def BeginsComment (before : Option Char) (c : Char) (r : Text) : Prop :=
  c = '/' ∧ (r.head? = some '*' ∨ r.head? = some '/' ∧ before ≠ some ':')

instance (before : Option Char) (c : Char) (r : Text) : Decidable (BeginsComment before c r) :=
  inferInstanceAs (Decidable (_ ∧ _))

theorem not_marksComment_nil : ¬ MarksComment before [] := by
  rintro ⟨p, q, h | ⟨h, -⟩⟩ <;> simp at h

/-- The first mark is at the beginning of the text or behind its first byte. -/
theorem marksComment_cons :
    MarksComment before (c :: r) ↔ BeginsComment before c r ∨ MarksComment (some c) r := by
  constructor
  · rintro ⟨_ | ⟨d, p⟩, q, hmark⟩
    · left
      rcases hmark with h | ⟨h, hcolon⟩ <;> obtain ⟨rfl, rfl⟩ := List.cons.inj h
      · exact ⟨rfl, .inl rfl⟩
      · exact ⟨rfl, .inr ⟨rfl, hcolon⟩⟩
    · right
      rw [getLast?_cons_or] at hmark
      rcases hmark with h | ⟨h, hcolon⟩ <;> obtain ⟨rfl, rfl⟩ := List.cons.inj h
      · exact ⟨p, q, .inl rfl⟩
      · exact ⟨p, q, .inr ⟨rfl, hcolon⟩⟩
  · rintro (⟨rfl, hnext⟩ | ⟨p, q, hmark⟩)
    · obtain ⟨x, q, rfl⟩ : ∃ x q, r = x :: q := by
        cases r with
        | nil => simp at hnext
        | cons x q => exact ⟨x, q, rfl⟩
      simp only [List.head?_cons, Option.some.injEq] at hnext
      rcases hnext with rfl | ⟨rfl, hcolon⟩
      · exact ⟨[], q, .inl rfl⟩
      · exact ⟨[], q, .inr ⟨rfl, hcolon⟩⟩
    · rw [← getLast?_cons_or before] at hmark
      rcases hmark with rfl | ⟨rfl, hcolon⟩
      · exact ⟨c :: p, q, .inl rfl⟩
      · exact ⟨c :: p, q, .inr ⟨rfl, hcolon⟩⟩

instance decidableMarksComment (before : Option Char) : (t : Text) → Decidable (MarksComment before t)
  | [] => .isFalse not_marksComment_nil
  | c :: r =>
    have : Decidable (MarksComment (some c) r) := decidableMarksComment (some c) r
    decidable_of_iff _ marksComment_cons.symm

/-! ## Pieces without quotes -/

/-- A byte of code that is no quote begins a comment, or leaves the automaton in code. -/
theorem next_of_not_quote (before : Option Char) (hquote : c ≠ '"' ∧ c ≠ '\'') (hend : c = '/' → r = [] → Inert ahead) :
    if BeginsComment before c r then ∃ block, State.code.next before c (r.head?.or ahead) = .opening block
    else State.code.next before c (r.head?.or ahead) = .code := by
  by_cases hc : c = '/'
  · subst hc
    cases r with
    | nil =>
      have hinert := hend rfl rfl
      simp [BeginsComment, State.next, hinert.1, hinert.2]
    | cons x q =>
      by_cases hstar : x = '*'
      · simp [BeginsComment, State.next, hstar]
      · by_cases hslash : x = '/' <;> by_cases hcolon : before = some ':' <;>
          simp [BeginsComment, State.next, hstar, hslash, hcolon]
  · have hbegins : ¬ BeginsComment before c r := fun h => hc h.1
    rw [if_neg hbegins]
    exact next_of_plain ⟨hc, hquote⟩

/-- **A piece without quotes that is read from code is shown as it is exactly if no comment mark is in it**, and
then the automaton is in code behind it. -/
theorem piece_eq_self_iff (mode : Mode) (before : Option Char) (hquote : ∀ c ∈ t, c ≠ '"' ∧ c ≠ '\'')
    (hend : t.getLast? = some '/' → Inert ahead) :
    (piece mode before .code ahead t = t ↔ ¬ MarksComment before t) ∧
      (¬ MarksComment before t → State.after before .code ahead t = .code) := by
  -- along the piece: the automaton stays in code up to the first mark, whose first byte is blanked
  induction t generalizing before with
  | nil => exact ⟨⟨fun _ => not_marksComment_nil, fun _ => rfl⟩, fun _ => rfl⟩
  | cons c r ih =>
    have hlast : c = '/' → r = [] → Inert ahead := by
      rintro rfl rfl
      exact hend rfl
    have hrest : r.getLast? = some '/' → Inert ahead := by
      intro hr
      apply hend
      rw [List.getLast?_cons, hr]
      rfl
    have hnext := next_of_not_quote before (hquote c List.mem_cons_self) hlast
    obtain ⟨ihshown, ihcode⟩ :=
      ih (some c) (fun d hd => hquote d (List.mem_cons_of_mem c hd)) hrest
    rw [marksComment_cons, piece, State.after]
    split at hnext
    · next hbegins =>
      obtain ⟨block, hopening⟩ := hnext
      have hspace : ' ' ≠ c := by
        rw [hbegins.1]
        decide
      constructor
      · simp [hopening, State.blanks, hbegins, hspace]
      · intro hmarks
        exact absurd (.inl hbegins) hmarks
    · next hbegins =>
      have hstays : State.code.blanks mode c .code = false := rfl
      rw [hnext, hstays, or_iff_right hbegins]
      exact ⟨by simpa using ihshown, ihcode⟩

/-! ## Addresses -/

/-- The `url(…)` of an address. -/
def url (address : Text) : Text := "url(".toList ++ address ++ [')']

/-- The argument of an unquoted `url(…)`: it has no quote, parenthesis, backslash or blank. -/
def Unquoted (address : Text) : Prop :=
  ∀ c ∈ address, c ≠ '"' ∧ c ≠ '\'' ∧ c ≠ '(' ∧ c ≠ ')' ∧ c ≠ '\\' ∧ isBlank c = false

instance (address : Text) : Decidable (Unquoted address) := List.decidableBAll _ address

/-- The marks of a `url(…)` are those of its address. -/
theorem marksComment_url (address : Text) :
    MarksComment before (url address) ↔ MarksComment (some '(') address := by
  have hbehind : ∀ {before : Option Char} {a : Text},
      MarksComment before (a ++ [')']) ↔ MarksComment before a := by
    intro before a
    induction a generalizing before with
    | nil =>
      rw [List.nil_append, marksComment_cons]
      simp [BeginsComment, not_marksComment_nil]
    | cons c r ih =>
      have hhead : BeginsComment before c (r ++ [')']) ↔ BeginsComment before c r := by
        cases r <;> simp [BeginsComment]
      rw [List.cons_append, marksComment_cons, marksComment_cons, ih, hhead]
  have hletter : ∀ {before : Option Char} {c : Char} {r : Text}, c ≠ '/' →
      (MarksComment before (c :: r) ↔ MarksComment (some c) r) := by
    intro before c r hc
    rw [marksComment_cons]
    exact or_iff_right fun hbegins => hc hbegins.1
  show MarksComment before ('u' :: 'r' :: 'l' :: '(' :: address ++ [')']) ↔ _
  rw [hbehind, hletter (by decide), hletter (by decide), hletter (by decide), hletter (by decide)]

/-- The stretch of a mask that belongs to a piece of the text. -/
theorem slice_mask (front p back : Text) :
    slice (mask mode (front ++ p ++ back)) front.length (front.length + p.length) =
      piece mode front.getLast? (State.after none .code (p.head?.or back.head?) front) back.head? p := by
  have hmask : mask mode (front ++ p ++ back) = piece mode none .code (p.head?.or back.head?) front ++
      (piece mode front.getLast? (State.after none .code (p.head?.or back.head?) front) back.head? p ++
        run mode ((front ++ p).getLast?.or none) (State.after none .code back.head? (front ++ p)) back) := by
    rw [mask, run_append, piece_append, List.append_assoc, Option.or_none]
  rw [hmask, slice, List.drop_left' (length_piece front)]
  exact List.take_left' (by rw [length_piece, Nat.add_sub_cancel_left])

/-- **A `url(…)` that begins in code is shown by a mask, and left in code, exactly if no comment mark is in its
address.** Of the address nothing is assumed but that it has no quotes; blanks, parentheses and backslashes in it
make no difference. -/
theorem url_shown_iff (mode : Mode) (front address back : Text)
    (hcode : State.after none .code (some 'u') front = .code)
    (hquote : ∀ c ∈ address, c ≠ '"' ∧ c ≠ '\'') :
    (slice (mask mode (front ++ url address ++ back)) front.length (front.length + (url address).length) =
        url address ↔ ¬ MarksComment (some '(') address) ∧
      (¬ MarksComment (some '(') address →
        State.after none .code back.head? (front ++ url address) = .code) := by
  have hbytes : ∀ c ∈ url address, c ≠ '"' ∧ c ≠ '\'' := by
    have hhead : ∀ c ∈ "url(".toList, c ≠ '"' ∧ c ≠ '\'' := by simp
    have hparenthesis : ∀ c ∈ [')'], c ≠ '"' ∧ c ≠ '\'' := by simp
    simp only [url, List.forall_mem_append]
    exact ⟨⟨hhead, hquote⟩, hparenthesis⟩
  have hclosed : (url address).getLast? = some ')' := List.getLast?_concat
  have hopened : (url address).head? = some 'u' := rfl
  have hpiece := @piece_eq_self_iff back.head? (url address) mode front.getLast? hbytes (by simp [hclosed])
  rw [marksComment_url] at hpiece
  obtain ⟨hshown, hbehind⟩ := hpiece
  constructor
  · rw [slice_mask, hopened, Option.some_or, hcode]
    exact hshown
  · intro hmarks
    rw [after_append, hopened, Option.some_or, hcode, Option.or_none]
    exact hbehind hmarks

/-- The scheme of an address is shown, whatever follows the parenthesis. -/
theorem schemeAddress_shown :
    State.after none .code (some 'u') "src: ".toList = .code ∧
      (∀ c ∈ "http://h/a*b/.png".toList, c ≠ '"' ∧ c ≠ '\'') ∧
      slice (commentMask ("src: ".toList ++ url "http://h/a*b/.png".toList ++ "//old".toList)) 5 27 =
        "url(http://h/a*b/.png)".toList ∧
      State.after none .code (some '/') ("src: ".toList ++ url "http://h/a*b/.png".toList) = .code := by
  have hcode : State.after none .code (some 'u') "src: ".toList = .code := rfl
  have hquote : ∀ c ∈ "http://h/a*b/.png".toList, c ≠ '"' ∧ c ≠ '\'' := by simp
  have hmarks : ¬ MarksComment (some '(') "http://h/a*b/.png".toList := by decide
  obtain ⟨hshown, hbehind⟩ :=
    url_shown_iff .comments "src: ".toList "http://h/a*b/.png".toList "//old".toList hcode hquote
  exact ⟨hcode, hquote, hshown.2 hmarks, hbehind hmarks⟩

/-- **An address that begins with its host is taken for a comment**: `url(//h/i.png)` has neither quote, nor
parenthesis, backslash or blank in it, and yet it is not shown. -/
theorem hostAddress_blanked : ¬ ∀ (mode : Mode) (front address back : Text),
    State.after none .code (some 'u') front = .code → Unquoted address →
      slice (mask mode (front ++ url address ++ back)) front.length (front.length + (url address).length) =
          url address ∧
        State.after none .code back.head? (front ++ url address) = .code := by
  intro hclaim
  have hhost := (hclaim .comments [] "//h/i.png".toList [] rfl (by decide)).1
  revert hhost
  decide

end Flatsheet.Mask
