import Flatsheet.Proofs.Text.Mask
import Mathlib.Data.List.Induction

/-!
# `Proofs.Text.Seam` — putting texts together

Where two texts are put together, something new can come about: the end of the first can be inside a comment
or a string, and the bytes on both sides of the seam can make up a mark. Where neither is the case the texts
join (`Joins`), and the mask of the whole is the masks of the parts (`mask_append`). A text that comes to
rest joins whatever follows it (`Rests`).

A mask shows where it is safe to cut: before a byte of the mask that is neither blank nor a quote, nothing
is open (`joins_of_masked`). Mostly the text comes to rest there (`rests_of_masked`, `rests_through`).
-/

namespace Flatsheet.Mask

open Text

variable {mode : Mode} {before ahead ahead' y y' : Option Char} {s : State} {c x z : Char} {a b p q t : Text}

/-- **The text joins what begins with the byte `y`**: it ends outside comments and strings, and the bytes at
the seam make up neither the slashes of an address nor the opening of an interpolation. -/
structure Joins (a : Text) (y : Option Char) : Prop where
  code : State.after none .code y a = .code
  address : ¬ (a.getLast? = some ':' ∧ y = some '/')
  interpolation : ¬ (a.getLast? = some '#' ∧ y = some '{')

instance (a : Text) (y : Option Char) : Decidable (Joins a y) :=
  decidable_of_iff
    (State.after none .code y a = .code ∧ ¬ (a.getLast? = some ':' ∧ y = some '/') ∧
      ¬ (a.getLast? = some '#' ∧ y = some '{'))
    ⟨fun ⟨h₁, h₂, h₃⟩ => ⟨h₁, h₂, h₃⟩, fun ⟨h₁, h₂, h₃⟩ => ⟨h₁, h₂, h₃⟩⟩

/-! ## The mask of the whole -/

/-- A byte that ends in code ends there also if something else follows, unless the two make up a mark. -/
theorem next_code_congr (hs : s.Quoted) (h : s.next before c y = .code)
    (hmark : s = .code → c = '/' → Inert y') : s.next before c y' = .code := by
  cases s with
  | code =>
    by_cases hslash : c = '/'
    · obtain ⟨hstar, hslash'⟩ := hmark rfl hslash
      subst hslash
      simp [State.next, hstar, hslash']
    · simpa [State.next, hslash] using h
  | opening block => cases block <;> cases h
  | lineComment => exact h
  | blockComment =>
    rw [State.next] at h
    split at h <;> cases h
  | closing => rfl
  | string q =>
    rw [State.next] at h
    split at h
    · cases h
    · split at h
      · next hend =>
        -- neither a quote nor a line feed is a backslash
        have hback : c ≠ '\\' := by
          rintro rfl
          rcases hs with rfl | rfl <;> cases hend
        simp [State.next, hback, hend]
      · cases h
  | escaped q => cases h

theorem next_code_of_inert (hs : s.Quoted) (h : s.next before c y = .code) (hinert : Inert y') :
    s.next before c y' = .code :=
  next_code_congr hs h fun _ _ => hinert

theorem after_code_of_inert (h : State.after none .code y a = .code) (hinert : Inert y') :
    State.after none .code y' a = .code := by
  rcases List.eq_nil_or_concat a with rfl | ⟨a, c, rfl⟩
  · rfl
  · rw [List.concat_eq_append, after_concat] at h ⊢
    exact next_code_of_inert (State.Quoted.after quoted_code a) h hinert

/-- The mask of a piece that ends in code is the mask of the piece alone. -/
theorem piece_of_after (h : State.after none .code y a = .code) :
    piece mode none .code y a = mask mode a := by
  rw [mask, run_eq_piece]
  rcases List.eq_nil_or_concat a with rfl | ⟨a, c, rfl⟩
  · rfl
  · rw [List.concat_eq_append, after_concat] at h
    rw [List.concat_eq_append, piece_append, piece_append]
    have hlast := next_code_of_inert (State.Quoted.after quoted_code a) h inert_none
    simp only [List.head?_cons, Option.some_or, piece, List.head?_nil, Option.none_or, hlast, h]

/-- **The mask of texts that join is their masks.** -/
theorem mask_append (h : Joins a b.head?) : mask mode (a ++ b) = mask mode a ++ mask mode b := by
  have hrest : run mode (a.getLast?.or none) .code b = run mode none .code b := by
    apply run_congr_before
    intro hslash
    have hcolon : a.getLast? ≠ some ':' := fun hlast => h.address ⟨hlast, hslash⟩
    rw [Option.or_none]
    simpa using hcolon
  rw [mask, run_append, h.code, piece_of_after h.code, hrest]
  rfl

/-! ## Coming to rest -/

/-- **The text comes to rest**: whatever follows, nothing is open at its end and no mark begins there. -/
structure Rests (a : Text) : Prop where
  slash : State.after none .code (some '/') a = .code
  star : State.after none .code (some '*') a = .code
  colon : a.getLast? ≠ some ':'
  hash : a.getLast? ≠ some '#'

instance (a : Text) : Decidable (Rests a) :=
  decidable_of_iff
    (State.after none .code (some '/') a = .code ∧ State.after none .code (some '*') a = .code ∧
      a.getLast? ≠ some ':' ∧ a.getLast? ≠ some '#')
    ⟨fun ⟨h₁, h₂, h₃, h₄⟩ => ⟨h₁, h₂, h₃, h₄⟩, fun ⟨h₁, h₂, h₃, h₄⟩ => ⟨h₁, h₂, h₃, h₄⟩⟩

/-- **A text that comes to rest joins whatever follows.** -/
theorem Rests.joins (h : Rests a) (y : Option Char) : Joins a y := by
  have hcode : State.after none .code y a = .code := by
    by_cases hstar : y = some '*'
    · rw [hstar]
      exact h.star
    · by_cases hslash : y = some '/'
      · rw [hslash]
        exact h.slash
      · exact after_code_of_inert h.slash ⟨hstar, hslash⟩
  exact ⟨hcode, fun hcolon => h.colon hcolon.1, fun hhash => h.hash hhash.1⟩

theorem rests_nil : Rests [] := ⟨rfl, rfl, nofun, nofun⟩

/-- The state after texts that join, the second of which is not empty. -/
theorem after_of_joins (h : Joins a b.head?) (hb : b ≠ []) :
    State.after none .code y (a ++ b) = State.after none .code y b := by
  have hhead : b.head?.or y = b.head? := by
    cases b with
    | nil => exact absurd rfl hb
    | cons c r => rfl
  rw [after_append, hhead, h.code]
  apply after_congr_before
  intro hslash
  have hcolon : a.getLast? ≠ some ':' := fun hlast => h.address ⟨hlast, hslash⟩
  rw [Option.or_none]
  simpa using hcolon

theorem head?_append_left (ha : a ≠ []) (b : Text) : (a ++ b).head? = a.head? := by
  rw [List.head?_append, List.head?_eq_some_head ha]
  rfl

theorem getLast?_append_right (a : Text) (hb : b ≠ []) : (a ++ b).getLast? = b.getLast? := by
  rw [List.getLast?_append, List.getLast?_eq_some_getLast hb]
  rfl

/-- Texts at rest, put together, are at rest. -/
theorem Rests.append (ha : Rests a) (hb : Rests b) : Rests (a ++ b) := by
  by_cases hnil : b = []
  · rw [hnil, List.append_nil]
    exact ha
  · have hafter : ∀ y, State.after none .code y (a ++ b) = State.after none .code y b :=
      fun y => after_of_joins (ha.joins b.head?) hnil
    have hlast : (a ++ b).getLast? = b.getLast? := getLast?_append_right a hnil
    refine ⟨?_, ?_, ?_, ?_⟩
    · rw [hafter]
      exact hb.slash
    · rw [hafter]
      exact hb.star
    · rw [hlast]
      exact hb.colon
    · rw [hlast]
      exact hb.hash

/-- Behind a text that comes to rest, what follows comes to rest if the whole does. -/
theorem Rests.of_append (hp : Rests p) (h : Rests (p ++ q)) : Rests q := by
  by_cases hq : q = []
  · rw [hq]
    exact rests_nil
  · have hafter : ∀ y, State.after none .code y (p ++ q) = State.after none .code y q :=
      fun y => after_of_joins (hp.joins q.head?) hq
    have hlast : (p ++ q).getLast? = q.getLast? := getLast?_append_right p hq
    refine ⟨?_, ?_, ?_, ?_⟩
    · rw [← hafter]
      exact h.slash
    · rw [← hafter]
      exact h.star
    · rw [← hlast]
      exact h.colon
    · rw [← hlast]
      exact h.hash

/-! ## Plain texts -/

/-- Nothing in the text can open a comment or a string. -/
def Plain (t : Text) : Prop := ∀ c ∈ t, c ≠ '/' ∧ c ≠ '"' ∧ c ≠ '\''

instance (t : Text) : Decidable (Plain t) := List.decidableBAll (fun c => c ≠ '/' ∧ c ≠ '"' ∧ c ≠ '\'') t

theorem next_of_plain (h : c ≠ '/' ∧ c ≠ '"' ∧ c ≠ '\'') : State.code.next before c ahead = .code := by
  simp [State.next, h.1, h.2.1, h.2.2]

theorem after_of_plain (h : Plain t) : State.after before .code ahead t = .code := by
  induction t generalizing before with
  | nil => rfl
  | cons c r ih =>
    rw [State.after, next_of_plain (h c List.mem_cons_self)]
    exact ih fun d hd => h d (List.mem_cons_of_mem c hd)

/-- Plain bytes are read as code, whatever comes after them. -/
theorem run_append_of_plain (h : Plain t) (r : Text) :
    run mode before .code (t ++ r) = t ++ run mode (t.getLast?.or before) .code r := by
  induction t generalizing before with
  | nil => rfl
  | cons c t ih =>
    rw [List.cons_append, run, next_of_plain (h c List.mem_cons_self), ih fun d hd => h d (List.mem_cons_of_mem c hd),
      getLast?_cons_or]
    rfl

theorem run_of_plain (h : Plain t) : run mode before .code t = t := by
  have hrun : run mode before .code (t ++ []) = t ++ [] := run_append_of_plain h []
  rwa [List.append_nil] at hrun

/-- A plain text is its own mask. -/
theorem mask_of_plain (h : Plain t) : mask mode t = t := run_of_plain h

theorem Plain.rests (h : Plain t) (hcolon : t.getLast? ≠ some ':') (hhash : t.getLast? ≠ some '#') :
    Rests t := ⟨after_of_plain h, after_of_plain h, hcolon, hhash⟩

/-- Blanks are plain. -/
theorem plain_of_blank (h : ∀ c ∈ t, isBlank c = true) : Plain t := by
  intro c hc
  refine ⟨?_, ?_, ?_⟩ <;> (rintro rfl; cases h _ hc)

theorem rests_of_blank (h : ∀ c ∈ t, isBlank c = true) : Rests t := by
  apply (plain_of_blank h).rests
  · intro hlast
    cases h ':' (List.mem_of_getLast? hlast)
  · intro hlast
    cases h '#' (List.mem_of_getLast? hlast)

/-! ## What a mask shows -/

/-- A byte of a mask other than a space is that of the text. -/
theorem getElem?_of_run {i : Nat} (h : (run mode before s t)[i]? = some c) (hc : c ≠ ' ') :
    t[i]? = some c := by
  induction t generalizing before s i with
  | nil => simp [run] at h
  | cons d r ih =>
    rw [run] at h
    cases i with
    | zero =>
      rw [List.getElem?_cons_zero] at h ⊢
      split at h
      · exact absurd (Option.some.inj h).symm hc
      · exact h
    | succ i =>
      rw [List.getElem?_cons_succ] at h ⊢
      exact ih h

/-- A byte of a mask. -/
theorem getElem?_mask (mode : Mode) {i : Nat} (h : t[i]? = some z) : (mask mode t)[i]? =
    some (if (State.after none .code (some z) (t.take i)).blanks mode z
        ((State.after none .code (some z) (t.take i)).next (t.take i).getLast? z t[i + 1]?) then ' ' else z) := by
  obtain ⟨hi, hget⟩ := List.getElem?_eq_some_iff.1 h
  have hcut : t = t.take i ++ z :: t.drop (i + 1) := by
    rw [← hget, ← List.drop_eq_getElem_cons hi, List.take_append_drop]
  have hlength : (t.take i).length = i := List.length_take_of_le (Nat.le_of_lt hi)
  have hahead : (t.drop (i + 1)).head? = t[i + 1]? := by
    rw [List.head?_eq_getElem?, List.getElem?_drop, Nat.add_zero]
  rw [← hahead]
  have hrun : mask mode t = piece mode none .code (some z) (t.take i) ++
      run mode (t.take i).getLast? (State.after none .code (some z) (t.take i)) (z :: t.drop (i + 1)) := by
    refine (congrArg (mask mode) hcut).trans ?_
    rw [mask, run_append, List.head?_cons, Option.or_none]
  rw [hrun, List.getElem?_append_right (Nat.le_of_eq ((length_piece _).trans hlength)), length_piece, hlength,
    Nat.sub_self, run, List.getElem?_cons_zero]

/-- A stretch of a mask without a space is that of the text. -/
theorem slice_of_codeMask {i j : Nat} (h : slice (codeMask t) i j = p) (hspace : ' ' ∉ p) :
    slice t i j = p := by
  have hlength : (slice t i j).length = p.length := by
    rw [← h, slice, slice, List.length_take, List.length_take, List.length_drop, List.length_drop,
      length_codeMask]
  apply List.ext_getElem hlength
  intro k hk hk'
  have hmasked : (slice (codeMask t) i j)[k]? = some p[k] := by
    rw [h, List.getElem?_eq_getElem hk']
  have hinside : k < j - i := by
    rw [slice, List.length_take] at hk
    omega
  rw [slice, List.getElem?_take_of_lt hinside, List.getElem?_drop] at hmasked
  have hbyte : t[i + k]? = some p[k] := by
    apply getElem?_of_run hmasked
    intro hblank
    exact hspace (hblank ▸ List.getElem_mem hk')
  have hsame : (slice t i j)[k]? = some p[k] := by
    rw [slice, List.getElem?_take_of_lt hinside, List.getElem?_drop, hbyte]
  rw [List.getElem?_eq_getElem hk] at hsame
  exact Option.some.inj hsame

/-- A byte of the code mask that is neither blank nor a quote is read as code. -/
theorem code_of_not_blanked (hs : s.Quoted) (hblank : isBlank c = false) (hquote : c ≠ '"' ∧ c ≠ '\'')
    (h : s.blanks .commentsAndStrings c (s.next before c ahead) = false) : s = .code := by
  have hline : c ≠ '\n' := by
    rintro rfl
    cases hblank
  cases s with
  | code => rfl
  | string q =>
    have hq : c ≠ q := by
      rintro rfl
      rcases hs with rfl | rfl
      · exact hquote.1 rfl
      · exact hquote.2 rfl
    have hopen : (State.string q).next before c ahead ≠ .code := by
      rw [State.next]
      split
      · intro hcode
        cases hcode
      · rw [if_neg (by simp [hq, hline])]
        intro hcode
        cases hcode
    simp [State.blanks, hopen, hline] at h
  | _ => simp [State.blanks, hline] at h

/-- **Where the code mask shows a byte that is neither blank nor a quote, nothing is open.** -/
theorem after_of_masked {i : Nat} (h : (codeMask t)[i]? = some c) (hblank : isBlank c = false)
    (hquote : c ≠ '"' ∧ c ≠ '\'') : State.after none .code (some c) (t.take i) = .code := by
  have hspace : c ≠ ' ' := by
    rintro rfl
    cases hblank
  have hmask := getElem?_mask .commentsAndStrings (getElem?_of_run h hspace)
  rw [← codeMask, h, Option.some.injEq] at hmask
  apply code_of_not_blanked (State.Quoted.after quoted_code _) hblank hquote
  split at hmask
  · exact absurd hmask hspace
  · next hblanks => exact Bool.eq_false_iff.2 hblanks

/-- So a text can be cut there. -/
theorem joins_of_masked {i : Nat} (h : (codeMask t)[i]? = some c) (hblank : isBlank c = false)
    (hquote : c ≠ '"' ∧ c ≠ '\'') (hmark : c ≠ '/' ∧ c ≠ '{') : Joins (t.take i) (some c) :=
  ⟨after_of_masked h hblank hquote, fun hslash => hmark.1 (Option.some.inj hslash.2),
    fun hbrace => hmark.2 (Option.some.inj hbrace.2)⟩

/-! ## Where a text comes to rest -/

/-- The mark that closes a comment ends in a slash. -/
theorem next_closing (h : s.next before c ahead = .closing) : ahead = some '/' := by
  cases s with
  | blockComment =>
    rw [State.next] at h
    split at h
    · next hend =>
      simp only [Bool.and_eq_true, decide_eq_true_eq] at hend
      exact hend.2
    · cases h
  | opening block => cases block <;> cases h
  | code =>
    revert h
    rw [State.next]
    split
    · simp
    · split
      · simp
      · split <;> simp
  | lineComment =>
    revert h
    rw [State.next]
    split <;> simp
  | closing => cases h
  | string q =>
    revert h
    rw [State.next]
    split
    · simp
    · split <;> simp
  | escaped q => cases h

theorem after_closing (h : State.after none .code y a = .closing) : y = some '/' := by
  rcases List.eq_nil_or_concat a with rfl | ⟨a, c, rfl⟩
  · cases h
  · rw [List.concat_eq_append, after_concat] at h
    exact next_closing h

/-- Where a byte of the text ends in code, the mask either shows it or has blanked the end of a comment. -/
theorem colon_hash_of_next (hs : s.Quoted) (h : s.next before x y = .code) (hclosing : s = .closing → x = '/')
    (hcode : s = .code → x ≠ ':' ∧ x ≠ '#') : x ≠ ':' ∧ x ≠ '#' := by
  -- only a line feed, a quote or the slash of a closing mark leads back to code
  cases s with
  | code => exact hcode rfl
  | opening block => cases block <;> cases h
  | lineComment =>
    rw [State.next] at h
    split at h
    · next hline =>
      subst hline
      decide
    · cases h
  | blockComment =>
    rw [State.next] at h
    split at h <;> cases h
  | closing =>
    rw [hclosing rfl]
    decide
  | string q =>
    rw [State.next] at h
    split at h
    · cases h
    · split at h
      · next hend =>
        simp only [Bool.or_eq_true, decide_eq_true_eq] at hend
        rcases hend with rfl | rfl
        · rcases hs with rfl | rfl <;> decide
        · decide
      · cases h
  | escaped q => cases h

/-- **A text comes to rest before a byte of the code mask** that is neither blank nor a quote, unless the byte
before is the first one of a mark. -/
theorem rests_of_masked {i : Nat} (h : (codeMask t)[i]? = some c) (hblank : isBlank c = false)
    (hquote : c ≠ '"' ∧ c ≠ '\'')
    (hbefore : ∀ x, byteBefore (codeMask t) i = some x → x ≠ '/' ∧ x ≠ ':' ∧ x ≠ '#') : Rests (t.take i) := by
  have hspace : c ≠ ' ' := by
    rintro rfl
    cases hblank
  have hc : t[i]? = some c := getElem?_of_run h hspace
  have hcode := after_of_masked h hblank hquote
  cases i with
  | zero => exact rests_nil
  | succ k =>
    have hk : k < t.length := Nat.lt_of_succ_lt (List.getElem?_eq_some_iff.1 hc).1
    have hcut : t.take (k + 1) = t.take k ++ [t[k]] := List.take_succ_eq_append_getElem hk
    have hmask := getElem?_mask .commentsAndStrings (List.getElem?_eq_getElem hk)
    have hquoted : (State.after none .code (some t[k]) (t.take k)).Quoted := State.Quoted.after quoted_code _
    rw [hcut, after_concat, Option.or_none] at hcode
    rw [hc, hcode] at hmask
    -- in code the byte is shown by the mask
    have hshown : State.after none .code (some t[k]) (t.take k) = .code → t[k] ≠ '/' ∧ t[k] ≠ ':' ∧ t[k] ≠ '#' := by
      intro hs
      rw [hs] at hmask
      exact hbefore _ hmask
    have hany : ∀ y, State.after none .code y (t.take (k + 1)) = .code := by
      intro y
      rw [hcut, after_concat, Option.or_none]
      exact next_code_congr hquoted hcode fun hs hslash => absurd hslash (hshown hs).1
    obtain ⟨hcolon, hhash⟩ := colon_hash_of_next hquoted hcode (fun hs => Option.some.inj (after_closing hs))
      fun hs => (hshown hs).2
    refine ⟨hany _, hany _, ?_, ?_⟩ <;> rw [hcut, List.getLast?_concat, ne_eq, Option.some.injEq]
    · exact hcolon
    · exact hhash

/-- **A text comes to rest behind a byte of the code mask** that is neither blank nor a quote, unless the byte is
the first one of a mark. -/
theorem rests_through {i : Nat} (h : (codeMask t)[i]? = some c) (hblank : isBlank c = false)
    (hquote : c ≠ '"' ∧ c ≠ '\'') (hmark : c ≠ '/' ∧ c ≠ ':' ∧ c ≠ '#') : Rests (t.take (i + 1)) := by
  have hspace : c ≠ ' ' := by
    rintro rfl
    cases hblank
  obtain ⟨hi, hget⟩ := List.getElem?_eq_some_iff.1 (getElem?_of_run h hspace)
  have hcut : t.take (i + 1) = t.take i ++ [c] := by
    rw [← hget]
    exact List.take_succ_eq_append_getElem hi
  have hany : ∀ y, State.after none .code y (t.take (i + 1)) = .code := by
    intro y
    rw [hcut, after_concat, after_of_masked h hblank hquote]
    exact next_of_plain ⟨hmark.1, hquote.1, hquote.2⟩
  refine ⟨hany _, hany _, ?_, ?_⟩ <;> rw [hcut, List.getLast?_concat, ne_eq, Option.some.injEq]
  · exact hmark.2.1
  · exact hmark.2.2

/-- **The beginning of a line comes to rest** if blanks behind it do. -/
theorem Rests.lineStart {u : Text} (h : Rests (a ++ u)) (hu : ∀ x ∈ u, isBlank x = true ∧ x ≠ '\n')
    (hstart : a = [] ∨ ∃ b, a = b ++ ['\n']) : Rests a := by
  have hback : ∀ u : Text, (∀ x ∈ u, isBlank x = true ∧ x ≠ '\n') →
      State.after none .code (some '\n') (a ++ u) = State.after none .code (some '\n') a := by
    intro u
    induction u using List.reverseRecOn with
    | nil =>
      intro _
      rw [List.append_nil]
    | append_singleton u x ih =>
      intro hu
      have hx := hu x (List.mem_append_right _ List.mem_cons_self)
      rw [← List.append_assoc, after_concat, Option.or_none, after_blank hx.1 hx.2]
      exact ih fun z hz => hu z (List.mem_append_left _ hz)
  have hcode : State.after none .code (some '\n') a = .code := by
    rw [← hback u hu]
    exact (h.joins (some '\n')).code
  rcases hstart with rfl | ⟨b, rfl⟩
  · exact rests_nil
  · have hany : ∀ y, State.after none .code y (b ++ ['\n']) = .code := by
      intro y
      rw [after_concat] at hcode ⊢
      exact next_code_congr (State.Quoted.after quoted_code _) hcode fun _ hslash => absurd hslash (by decide)
    refine ⟨hany _, hany _, ?_, ?_⟩ <;> (rw [List.getLast?_concat]; decide)

end Flatsheet.Mask
