import Flatsheet.Proofs.Text.Seam

/-!
# `Proofs.Text.Zones` — a text read byte by byte, each with its zone

The two masks of a text blank some of its bytes. Together they say of each byte where it stands: in code, in a string
or in a comment (`Zone`). A text that has been read is the list of its bytes with their zones (`zoned`), and both masks
can be read off it (`piece_eq_zoned`).

What comes behind a cut of the text depends on the state there and on the byte before it, and the state depends on the
byte behind. A byte that opens and closes nothing (`Mild`) can be put in at the cut, or left out, and nothing else is
read in another way (`zoned_put`), unless the bytes on both sides of it mean something together (`Linked`).
-/

namespace Flatsheet.Mask

open Text

variable {mode : Mode} {before before' ahead ahead' y p : Option Char} {s t : State} {c x : Char} {a b l r w : Text}

/-! ## Zones -/

/-- Where a byte of a text stands. The quotes of a string stand in code, and so does a line feed. -/
inductive Zone
  | code
  | quoted
  | comment
deriving DecidableEq, Repr

/-- The zone of the byte `c`, read in state `s` and followed by state `t`. -/
def State.zone (s : State) (c : Char) (t : State) : Zone :=
  if s.blanks .comments c t then .comment
  else if s.blanks .commentsAndStrings c t then .quoted
  else .code

/-- **The bytes of a piece of text with their zones**, read from state `s` after the byte `before`, where `ahead`
follows. -/
def zoned (before : Option Char) (s : State) (ahead : Option Char) : Text → List (Char × Zone)
  | [] => []
  | c :: r =>
    let t := s.next before c (r.head?.or ahead)
    (c, s.zone c t) :: zoned (some c) t ahead r

/-- A whole text with the zones of its bytes. -/
def zones (t : Text) : List (Char × Zone) := zoned none .code none t

/-- What a mask shows of a byte. -/
def shown (mode : Mode) (b : Char × Zone) : Char :=
  if b.2 = .comment ∨ mode = .commentsAndStrings ∧ b.2 = .quoted then ' ' else b.1

/-- What is blanked as a comment is blanked by both masks. -/
theorem blanks_of_comments (h : s.blanks .comments c t = true) : s.blanks .commentsAndStrings c t = true := by
  cases s with
  | string q => simp [State.blanks] at h
  | escaped q => simp [State.blanks] at h
  | _ => exact h

theorem shown_zone (mode : Mode) : shown mode (c, s.zone c t) = if s.blanks mode c t then ' ' else c := by
  unfold shown State.zone
  cases mode with
  | comments =>
    cases hc : s.blanks .comments c t
    · cases s.blanks .commentsAndStrings c t <;> simp
    · simp
  | commentsAndStrings =>
    cases hc : s.blanks .comments c t
    · cases s.blanks .commentsAndStrings c t <;> simp
    · simp [blanks_of_comments hc]

theorem zone_eq_code_iff : s.zone c t = .code ↔ s.blanks .commentsAndStrings c t = false := by
  unfold State.zone
  cases hc : s.blanks .comments c t
  · cases s.blanks .commentsAndStrings c t <;> simp
  · simp [blanks_of_comments hc]

/-- **The masks show what the zones say.** -/
theorem piece_eq_zoned (mode : Mode) (a : Text) :
    piece mode before s ahead a = (zoned before s ahead a).map (shown mode) := by
  induction a generalizing before s with
  | nil => rfl
  | cons c r ih =>
    simp only [piece, zoned, List.map_cons, shown_zone]
    rw [ih]

theorem mask_eq_zones (mode : Mode) (t : Text) : mask mode t = (zones t).map (shown mode) := by
  rw [mask, run_eq_piece, piece_eq_zoned]
  rfl

theorem map_fst_zoned (a : Text) : (zoned before s ahead a).map Prod.fst = a := by
  induction a generalizing before s with
  | nil => rfl
  | cons c r ih =>
    simp only [zoned, List.map_cons]
    rw [ih]

theorem length_zoned (a : Text) : (zoned before s ahead a).length = a.length := by
  have h : ((zoned before s ahead a).map Prod.fst).length = a.length := by rw [map_fst_zoned]
  rwa [List.length_map] at h

theorem mem_of_mem_zoned {b : Char × Zone} (h : b ∈ zoned before s ahead a) : b.1 ∈ a := by
  have hbyte : b.1 ∈ (zoned before s ahead a).map Prod.fst := List.mem_map_of_mem h
  rwa [map_fst_zoned] at hbyte

/-- Bytes that are not in a text are not among its zones. -/
theorem filter_zoned (h : c ∉ a) : (zoned before s ahead a).filter (·.1 = c) = [] := by
  rw [List.filter_eq_nil_iff]
  rintro ⟨x, z⟩ hmem
  rw [decide_eq_true_eq]
  rintro rfl
  exact h (mem_of_mem_zoned hmem)

theorem zoned_append (a b : Text) : zoned before s ahead (a ++ b) =
    zoned before s (b.head?.or ahead) a ++
      zoned (a.getLast?.or before) (State.after before s (b.head?.or ahead) a) ahead b := by
  induction a generalizing before s with
  | nil => rfl
  | cons c r ih =>
    simp only [List.cons_append, zoned, List.head?_append, Option.or_assoc, State.after]
    rw [ih, getLast?_cons_or]

theorem zoned_congr_before (h : a.head? = some '/' → (before = some ':' ↔ before' = some ':')) :
    zoned before s ahead a = zoned before' s ahead a := by
  cases a with
  | nil => rfl
  | cons c r =>
    have hnext : s.next before c (r.head?.or ahead) = s.next before' c (r.head?.or ahead) :=
      next_congr_before fun hc => h (congrArg some hc)
    simp only [zoned, hnext]

/-- Which of two bytes is ahead makes no difference, unless it completes a mark. -/
theorem zoned_of_inert (hs : s.Quoted) (h : Inert ahead) (h' : Inert ahead') (a : Text) :
    zoned before s ahead a = zoned before s ahead' a := by
  rcases List.eq_nil_or_concat a with rfl | ⟨a, x, rfl⟩
  · rfl
  · have hquoted : (State.after before s (some x) a).Quoted := hs.after a
    have hzone : ∀ y, Inert y → (State.after before s (some x) a).zone x
          ((State.after before s (some x) a).next (a.getLast?.or before) x y) =
        (State.after before s (some x) a).zone x
          ((State.after before s (some x) a).next (a.getLast?.or before) x ahead') := by
      intro y hy
      unfold State.zone
      rw [blanks_of_inert hquoted hy h', blanks_of_inert hquoted hy h']
    rw [List.concat_eq_append, zoned_append, zoned_append, List.head?_cons, Option.some_or, Option.some_or]
    simp only [zoned, List.head?_nil, Option.none_or, hzone ahead h]

/-- Plain bytes stand in code. -/
theorem zoned_of_plain (h : Plain a) : zoned before .code ahead a = a.map (·, Zone.code) := by
  induction a generalizing before with
  | nil => rfl
  | cons c r ih =>
    have hnext : State.code.next before c (r.head?.or ahead) = .code := next_of_plain (h c List.mem_cons_self)
    have hrest : zoned (some c) .code ahead r = r.map (·, Zone.code) := ih fun d hd => h d (List.mem_cons_of_mem c hd)
    simp only [zoned, hnext, hrest, List.map_cons]
    rfl

/-! ## Counting -/

/-- A mask shows a byte as often as it stands in code. -/
theorem count_codeMask (hc : c ≠ ' ') (t : Text) : (codeMask t).count c = (zones t).count (c, .code) := by
  rw [codeMask, mask_eq_zones, List.count, List.countP_map]
  apply List.countP_congr
  rintro ⟨x, z⟩ -
  cases z <;> simp [shown, Ne.symm hc]

/-- The opening braces of the code less the closing ones. -/
def net (w : List (Char × Zone)) : Int := w.count ('{', .code) - w.count ('}', .code)

@[simp] theorem net_nil : net [] = 0 := rfl

@[simp] theorem net_append (v w : List (Char × Zone)) : net (v ++ w) = net v + net w := by
  simp only [net, List.count_append]
  omega

theorem net_cons (b : Char × Zone) (w : List (Char × Zone)) : net (b :: w) = net [b] + net w := net_append [b] w

/-- A byte that is no brace of the code does not count. -/
theorem net_of_ne {z : Zone} (h : z = .code → c ≠ '{' ∧ c ≠ '}') : net [(c, z)] = 0 := by
  cases z with
  | code => simp [net, h rfl]
  | quoted => simp [net]
  | comment => simp [net]

/-- Bytes that are no braces of the code do not count. -/
theorem net_eq_zero {u : List (Char × Zone)} (h : ∀ b ∈ u, b.2 = .code → b.1 ≠ '{' ∧ b.1 ≠ '}') : net u = 0 := by
  induction u with
  | nil => rfl
  | cons b u ih =>
    rw [net_cons, net_of_ne (h b List.mem_cons_self), ih fun d hd => h d (List.mem_cons_of_mem b hd)]
    rfl

/-- Nor do the bytes of a text without braces. -/
theorem net_zoned (h : '{' ∉ a ∧ '}' ∉ a) : net (zoned before s ahead a) = 0 := by
  apply net_eq_zero
  rintro ⟨x, z⟩ hb _
  have hbyte : x ∈ a := mem_of_mem_zoned hb
  constructor
  · rintro rfl
    exact h.1 hbyte
  · rintro rfl
    exact h.2 hbyte

/-! ## Bytes that open and close nothing -/

/-- The byte opens and closes nothing, by itself or together with another one. -/
def Mild (c : Char) : Prop := c ∉ ['/', '*', ':', '"', '\'', '\\', '\n']

instance (c : Char) : Decidable (Mild c) := inferInstanceAs (Decidable (c ∉ ['/', '*', ':', '"', '\'', '\\', '\n']))

/-- **Two bytes mean something together**: they make up a comment mark or the slash of an address, or the second one is
protected by the first. -/
def Linked (x y : Option Char) : Prop :=
  x = some '/' ∧ (y = some '*' ∨ y = some '/') ∨ (x = some '*' ∨ x = some ':') ∧ y = some '/' ∨
    x = some '\\' ∧ (y = some '"' ∨ y = some '\'' ∨ y = some '\\')

instance (x y : Option Char) : Decidable (Linked x y) := by
  unfold Linked
  infer_instance

theorem Mild.ne (h : Mild c) :
    c ≠ '/' ∧ c ≠ '*' ∧ c ≠ ':' ∧ c ≠ '"' ∧ c ≠ '\'' ∧ c ≠ '\\' ∧ c ≠ '\n' := by
  simpa [Mild] using h

theorem Mild.not_linked_left (h : Mild c) (y : Option Char) : ¬ Linked (some c) y := by
  obtain ⟨h₁, h₂, h₃, -, -, h₆, -⟩ := h.ne
  simp [Linked, h₁, h₂, h₃, h₆]

theorem Mild.not_linked_right (h : Mild c) (x : Option Char) : ¬ Linked x (some c) := by
  obtain ⟨h₁, h₂, -, h₄, h₅, h₆, -⟩ := h.ne
  simp [Linked, h₁, h₂, h₄, h₅, h₆]

theorem mild_of_blank (h : isBlank c = true) (hline : c ≠ '\n') : Mild c := by
  have hmarks : ∀ x ∈ ['/', '*', ':', '"', '\'', '\\', '\n'], isBlank x = true → x = '\n' := by simp [isBlank]
  intro hmem
  exact hline (hmarks c hmem h)

/-- A state in which a line can begin, and in which no byte is awaited. -/
def Begins (s : State) : Prop := s = .code ∨ s = .blockComment

theorem Begins.quoted (h : Begins s) : s.Quoted := by
  rcases h with rfl | rfl <;> trivial

/-- A mild byte leaves the state as it is. -/
theorem Begins.next_mild (h : Begins s) (hc : Mild c) : s.next before c ahead = s := by
  obtain ⟨h₁, h₂, -, h₄, h₅, -, -⟩ := hc.ne
  rcases h with rfl | rfl <;> simp [State.next, h₁, h₂, h₄, h₅]

/-- In this state no byte is awaited. -/
def State.Settled : State → Prop
  | .opening _ | .closing | .escaped _ => False
  | _ => True

/-- A mild byte leaves a state as it is in which no byte is awaited. -/
theorem next_mild (hs : s.Quoted) (hc : Mild c) (h : s.Settled) : s.next before c ahead = s := by
  obtain ⟨h₁, h₂, -, h₄, h₅, h₆, h₇⟩ := hc.ne
  cases s with
  | code => simp [State.next, h₁, h₄, h₅]
  | opening block => exact h.elim
  | lineComment => simp [State.next, h₇]
  | blockComment => simp [State.next, h₂]
  | closing => exact h.elim
  | string q =>
    have hq : c ≠ q := by
      rintro rfl
      rcases hs with rfl | rfl
      · exact h₄ rfl
      · exact h₅ rfl
    simp [State.next, h₆, h₇, hq]
  | escaped q => exact h.elim

/-- What is open stays open over a mild byte. -/
theorem Mild.next_ne_code (hc : Mild c) (hs : s.Quoted) (h : s ≠ .code ∧ s ≠ .closing) :
    s.next before c ahead ≠ .code ∧ s.next before c ahead ≠ .closing := by
  cases s with
  | code => exact absurd rfl h.1
  | opening block => cases block <;> simp [State.next]
  | closing => exact absurd rfl h.2
  | escaped q => simp [State.next]
  | lineComment | blockComment | string q =>
    rw [next_mild hs hc trivial]
    exact h

/-- **Where something is open, mild bytes are not read as code.** -/
theorem count_zoned_mild (hs : s.Quoted) (h : s ≠ .code ∧ s ≠ .closing) (ha : ∀ x ∈ a, Mild x)
    (hblank : isBlank c = false) : (zoned before s ahead a).count (c, .code) = 0 := by
  induction a generalizing before s with
  | nil => rfl
  | cons x r ih =>
    have hx : Mild x := ha x List.mem_cons_self
    have hrest : (zoned (some x) (s.next before x (r.head?.or ahead)) ahead r).count (c, .code) = 0 :=
      ih hs.next (hx.next_ne_code hs h) fun y hy => ha y (List.mem_cons_of_mem x hy)
    rw [zoned, List.count_cons, hrest, Nat.zero_add, if_neg]
    intro heq
    obtain ⟨rfl, hzone⟩ := Prod.mk.inj (eq_of_beq heq)
    exact h.1 (code_of_not_blanked hs hblank ⟨hx.ne.2.2.2.1, hx.ne.2.2.2.2.1⟩ (zone_eq_code_iff.1 hzone))

/-- In code, where no mark begins, at most a string does. -/
theorem next_put_code (before : Option Char) {z : Char} (hc : Mild c)
    (hmarks : ¬ (x = '/' ∧ z = '*') ∧ ¬ (x = '/' ∧ z = '/')) :
    State.code.next before x (some c) = State.code.next before x (some z) ∧
      (State.code.next before x (some c)).next (some x) c (some z) = State.code.next before x (some z) := by
  obtain ⟨h₁, h₂, -⟩ := hc.ne
  have hsame : State.code.next before x (some c) = State.code.next before x (some z) := by
    simp only [State.next, Option.some.injEq, h₁, h₂, Bool.and_eq_true, decide_eq_true_eq, decide_false, hmarks.1]
    simp [hmarks.2]
  have hinert : Inert (some c) := ⟨by simpa using h₂, by simpa using h₁⟩
  refine ⟨hsame, ?_⟩
  rw [← hsame]
  rcases next_code_cases before x hinert with hnext | ⟨q, hq, hnext⟩
  · rw [hnext]
    exact next_mild trivial hc trivial
  · rw [hnext]
    exact next_mild hq hc trivial

/-- A backslash in a string protects what is behind it. A mild byte there is not protected, and the string stays
open. -/
theorem next_put_backslash (before : Option Char) {q z : Char} (hq : q = '"' ∨ q = '\'') (hc : Mild c)
    (hz : z ≠ '"' ∧ z ≠ '\'' ∧ z ≠ '\\') :
    (State.string q).zone '\\' ((State.string q).next before '\\' (some c)) =
        (State.string q).zone '\\' ((State.string q).next before '\\' (some z)) ∧
      ((State.string q).next before '\\' (some c)).next (some '\\') c (some z) = .string q ∧
      ((State.string q).next before '\\' (some z) = .string q ∨
        (z ≠ q ∧ z ≠ '\\' ∧ z ≠ '\n') ∧ (State.string q).next before '\\' (some z) = .escaped q) := by
  have hclose : ¬ ('\\' = q ∨ '\\' = '\n') := by
    rcases hq with rfl | rfl <;> decide
  have hnext : ∀ y, (State.string q).next before '\\' (some y) = if protects (some y) then .escaped q else .string q := by
    intro y
    simp only [State.next, decide_true, Bool.true_and, Bool.or_eq_true, decide_eq_true_eq, if_neg hclose]
  have hzone : ∀ y, (State.string q).zone '\\' ((State.string q).next before '\\' (some y)) = .quoted := by
    intro y
    rw [hnext]
    cases protects (some y) <;> simp [State.zone, State.blanks]
  refine ⟨(hzone c).trans (hzone z).symm, ?_, ?_⟩
  · rw [hnext]
    split
    · rfl
    · exact next_mild hq hc trivial
  · rw [hnext]
    cases hprotects : protects (some z) with
    | false => exact .inl rfl
    | true =>
      refine .inr ⟨⟨?_, hz.2.2, ?_⟩, rfl⟩
      · rcases hq with rfl | rfl
        · exact hz.1
        · exact hz.2.1
      · rintro rfl
        cases hprotects

/-- **Before a mild byte a byte is read as it is before one that is not linked to it**, and behind the mild byte the text
goes on as it does without it, or at least a byte that needed no protection loses it. -/
theorem next_put {z : Char} (hs : s.Quoted) (hc : Mild c) (h : ¬ Linked (some x) (some z)) :
    s.zone x (s.next before x (some c)) = s.zone x (s.next before x (some z)) ∧
    ((s.next before x (some c)).next (some x) c (some z) = s.next before x (some z) ∨
      ∃ q, (z ≠ q ∧ z ≠ '\\' ∧ z ≠ '\n') ∧ s.next before x (some z) = .escaped q ∧
        (s.next before x (some c)).next (some x) c (some z) = .string q) := by
  obtain ⟨h₁, h₂, -, h₄, h₅, h₆, h₇⟩ := hc.ne
  simp only [Linked, Option.some.injEq, not_or, not_and] at h
  obtain ⟨hslash, hstar, hback⟩ := h
  cases s with
  | code =>
    obtain ⟨hsame, hafter⟩ :=
      next_put_code before hc ⟨fun hx => (hslash hx.1).1 hx.2, fun hx => (hslash hx.1).2 hx.2⟩
    rw [hsame] at hafter ⊢
    exact ⟨rfl, .inl hafter⟩
  | opening block =>
    cases block
    · exact ⟨rfl, .inl (next_mild trivial hc trivial)⟩
    · exact ⟨rfl, .inl (next_mild trivial hc trivial)⟩
  | lineComment =>
    refine ⟨rfl, .inl ?_⟩
    by_cases hx : x = '\n'
    · simp [State.next, hx, h₁, h₄, h₅]
    · simp [State.next, hx, h₇]
  | blockComment =>
    have hopen : ∀ y, y = c ∨ y = z → State.blockComment.next before x (some y) = .blockComment := by
      rintro y (rfl | rfl)
      · simp [State.next, h₁]
      · simpa [State.next] using fun hx => hstar (.inl hx)
    rw [hopen c (.inl rfl), hopen z (.inr rfl)]
    exact ⟨rfl, .inl (next_mild trivial hc trivial)⟩
  | closing => exact ⟨rfl, .inl (next_mild trivial hc trivial)⟩
  | string q =>
    by_cases hx : x = '\\'
    · obtain ⟨hquote, hquote', hback'⟩ : z ≠ '"' ∧ z ≠ '\'' ∧ z ≠ '\\' := by
        have hback := hback hx
        tauto
      subst hx
      obtain ⟨hzone, hbehind, hopen | ⟨hplain, hescaped⟩⟩ :=
        next_put_backslash before hs hc ⟨hquote, hquote', hback'⟩
      · exact ⟨hzone, .inl (hbehind.trans hopen.symm)⟩
      · exact ⟨hzone, .inr ⟨q, hplain, hescaped, hbehind⟩⟩
    · have hnext : ∀ y, (State.string q).next before x (some y) = if x = q ∨ x = '\n' then .code else .string q := by
        intro y
        simp [State.next, hx]
      rw [hnext, hnext]
      refine ⟨rfl, .inl ?_⟩
      split
      · exact next_mild trivial hc trivial
      · exact next_mild hs hc trivial
  | escaped q => exact ⟨rfl, .inl (next_mild hs hc trivial)⟩

/-- A byte that needs no protection is read in the same way without it. -/
theorem read_of_escaped {q z : Char} (h : z ≠ q ∧ z ≠ '\\' ∧ z ≠ '\n') (before before' : Option Char) (r : Text) :
    zoned before (.string q) ahead (z :: r) = zoned before' (.escaped q) ahead (z :: r) ∧
      State.after before (.string q) ahead (z :: r) = State.after before' (.escaped q) ahead (z :: r) := by
  obtain ⟨hq, hback, hline⟩ := h
  have hnext : ∀ y, (State.string q).next before z y = .string q := by
    intro y
    simp [State.next, hq, hback, hline]
  have hnext' : ∀ y, (State.escaped q).next before' z y = .string q := fun y => rfl
  have hzone : (State.string q).zone z (.string q) = (State.escaped q).zone z (.string q) := by
    simp [State.zone, State.blanks, hline]
  simp only [zoned, State.after, hnext, hnext', hzone]
  simp

/-- Where an address can go on, a mild byte before it is as good as a byte that is not linked to it. -/
theorem Mild.colon_iff (hc : Mild c) (h : ¬ Linked before y) :
    y = some '/' → (some c = some ':' ↔ before = some ':') := by
  rintro rfl
  have hbefore : before ≠ some ':' := fun hcolon => h (.inr (.inl ⟨.inr hcolon, rfl⟩))
  have hmild : some c ≠ some ':' := fun hcolon => hc.ne.2.2.1 (Option.some.inj hcolon)
  simp [hbefore, hmild]

/-- **A mild byte can be put in** between bytes that are not linked, and everything else is read as it was. -/
theorem zoned_put (hs : s.Quoted) (hbegins : a = [] → Begins s) (hc : Mild c) (hr : r ≠ [])
    (h : ¬ Linked (a.getLast?.or before) r.head?) :
    (∃ z, zoned before s ahead (a ++ c :: r) = zoned before s r.head? a ++
      (c, z) :: zoned (a.getLast?.or before) (State.after before s r.head? a) ahead r) ∧
    State.after before s ahead (a ++ c :: r) = State.after before s ahead (a ++ r) := by
  obtain ⟨z, r, rfl⟩ := List.exists_cons_of_ne_nil hr
  rw [List.head?_cons] at h ⊢
  rcases List.eq_nil_or_concat a with rfl | ⟨a, x, rfl⟩
  · have hnext : s.next before c (some z) = s := (hbegins rfl).next_mild hc
    have hcolon := hc.colon_iff h
    have hrest : zoned (some c) s ahead (z :: r) = zoned before s ahead (z :: r) := zoned_congr_before hcolon
    have hafter : State.after (some c) s ahead (z :: r) = State.after before s ahead (z :: r) :=
      after_congr_before hcolon
    refine ⟨⟨s.zone c s, ?_⟩, ?_⟩
    · show zoned before s ahead (c :: z :: r) = (c, s.zone c s) :: zoned before s ahead (z :: r)
      rw [zoned, List.head?_cons, Option.some_or, hnext, hrest]
    · show State.after before s ahead (c :: z :: r) = State.after before s ahead (z :: r)
      rw [State.after, List.head?_cons, Option.some_or, hnext, hafter]
  · rw [List.concat_eq_append, List.getLast?_concat, Option.some_or] at h ⊢
    have hquoted : (State.after before s (some x) a).Quoted := hs.after a
    obtain ⟨hzone, hbehind⟩ := next_put hquoted hc h
    generalize hfront : State.after before s (some x) a = u at hzone hbehind
    -- behind the mild byte the rest is read as it was
    have hrest : zoned (some c) ((u.next (a.getLast?.or before) x (some c)).next (some x) c (some z)) ahead (z :: r) =
          zoned (some x) (u.next (a.getLast?.or before) x (some z)) ahead (z :: r) ∧
        State.after (some c) ((u.next (a.getLast?.or before) x (some c)).next (some x) c (some z)) ahead (z :: r) =
          State.after (some x) (u.next (a.getLast?.or before) x (some z)) ahead (z :: r) := by
      rcases hbehind with hsame | ⟨q, hz, hescaped, hstring⟩
      · rw [hsame]
        exact ⟨zoned_congr_before (hc.colon_iff h), after_congr_before (hc.colon_iff h)⟩
      · rw [hescaped, hstring]
        exact read_of_escaped hz _ _ r
    have hwith : a ++ [x] ++ c :: z :: r = a ++ x :: c :: z :: r := by simp
    have hwithout : a ++ [x] ++ z :: r = a ++ x :: z :: r := by simp
    have hlast : zoned before s (some z) (a ++ [x]) = zoned before s (some x) a ++
        [(x, u.zone x (u.next (a.getLast?.or before) x (some z)))] := by
      rw [zoned_append, List.head?_cons, Option.some_or, hfront]
      rfl
    rw [hwith, hwithout, after_concat, hfront, hlast]
    refine ⟨⟨(u.next (a.getLast?.or before) x (some c)).zone c
      ((u.next (a.getLast?.or before) x (some c)).next (some x) c (some z)), ?_⟩, ?_⟩
    · rw [zoned_append, List.head?_cons, Option.some_or, hfront, zoned, zoned, List.append_assoc]
      simp only [List.head?_cons, Option.some_or, hzone, hrest.1, List.singleton_append]
    · rw [after_append, after_append, List.head?_cons, List.head?_cons, Option.some_or, hfront, State.after, State.after,
        State.after]
      exact hrest.2

theorem Mild.inert (hc : Mild c) : Inert (some c) := by
  obtain ⟨h₁, h₂, -⟩ := hc.ne
  exact ⟨fun hstar => h₂ (Option.some.inj hstar), fun hslash => h₁ (Option.some.inj hslash)⟩

theorem inert_head (h : ∀ x ∈ w, Inert (some x)) : Inert w.head? := by
  cases w with
  | nil => exact inert_none
  | cons x r => exact h x List.mem_cons_self

end Flatsheet.Mask
