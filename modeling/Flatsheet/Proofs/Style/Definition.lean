import Flatsheet.Proofs.Style.Remainder
import Mathlib.Data.Nat.Init

/-!
# `Proofs.Style.Definition` — the definitions that the scanner of declarations goes over

The scanner takes a statement that begins with `@mixin` or `@function` for the head of a definition, and the next
brace that is no interpolation opens the body. Up to the brace that closes the body it sees no declaration, and comes
to each byte (`IsDefinition.goesOn`). So the definition is among what is left of the text (`IsDefinition.clear`).

The scanner keeps a stack. At each place of the body more blocks are open than where the definition begins, and so
more braces have been opened than closed since then (`IsDefinition.count_lt`).

* `IsDefinition`: a definition by the places of its beginning, its body and its end
* `Scan.next_statement`, `Scan.next_blocks`: what one byte does
-/

namespace Flatsheet.Style

open Text Check Mask

variable {t here : Text} {s : Declaration.Scan} {b : Option Char} {kind : Block} {y : Char} {i j k m n : Nat}

/-! ## Bytes -/

/-- The block that a statement opens, from its first byte on. -/
theorem ofHead_isDefinition {r : Text} (h : (Block.ofHead r).isDefinition = true) :
    startsWith r "@mixin".toList = true ∨ startsWith r "@function".toList = true := by
  unfold Block.ofHead at h
  split at h
  · next hmixin => exact .inl hmixin
  · split at h
    · next hfunction => exact .inr hfunction
    · cases h

namespace Scan

/-- **Inside a statement** a byte ends it, or it goes on. -/
theorem next_statement (h : s.statement = some kind) (hgoes : (s.next b here y).statement ≠ none) :
    (s.next b here y).statement = some kind := by
  revert hgoes
  unfold Declaration.Scan.next
  simp only [h, Option.getD_some]
  split
  · exact fun _ => h
  · split
    · split
      · exact fun _ => rfl
      · exact fun hgoes => absurd rfl hgoes
    · split
      · split
        · exact fun _ => rfl
        · exact fun hgoes => absurd rfl hgoes
      · split
        · exact fun hgoes => absurd rfl hgoes
        · exact fun _ => rfl

/-- **What a byte does to the open blocks**: an opening brace adds one, a closing one takes the innermost away. -/
theorem next_blocks (s : Declaration.Scan) (b : Option Char) (here : Text) (y : Char) :
    (y = '\x7b' ∧ ∃ block, (s.next b here y).blocks = block :: s.blocks) ∨
    (y = '\x7d' ∧ (s.next b here y).blocks = s.blocks.tail ∧
      ((s.next b here y).statement ≠ none → s.blocks.head? = some .interpolation)) ∨
    (y ≠ '\x7b' ∧ y ≠ '\x7d' ∧ (s.next b here y).blocks = s.blocks) := by
  unfold Declaration.Scan.next
  split
  · next hblank =>
    refine .inr (.inr ⟨?_, ?_, rfl⟩) <;> (rintro rfl; cases hblank)
  · dsimp only
    split
    · next hopen =>
      refine .inl ⟨hopen, ?_⟩
      split <;> exact ⟨_, rfl⟩
    · next hopen =>
      split
      · next hclose =>
        refine .inr (.inl ⟨hclose, ?_⟩)
        split
        · next hinterp => exact ⟨rfl, fun _ => hinterp⟩
        · exact ⟨rfl, fun hgoes => absurd rfl hgoes⟩
      · next hclose =>
        refine .inr (.inr ⟨hopen, hclose, ?_⟩)
        split <;> rfl

end Scan

/-! ## Definitions -/

/-- **The scanner goes over a definition** from the place `n` on: a statement begins there with `@mixin` or
`@function`, which no semicolon and no closing brace ends; the brace at the place `j` opens the body, and the one before
the place `k` closes it. -/
structure IsDefinition (t : Text) (n j k : Nat) : Prop where
  order : n < j ∧ j < k
  begins : (place t n).scan.statement = none
  kind : (Block.ofHead (place t n).cursor.rest).isDefinition = true
  head : ∀ i ≤ j, n < i → (place t i).scan.statement ≠ none
  opens : (place t j).cursor.byte? = some '\x7b' ∧ (place t j).cursor.byteBefore? ≠ some '#'
  body : ∀ i < k, j < i → (place t (j + 1)).scan.blocks <:+ (place t i).scan.blocks
  closes : (place t k).scan.blocks = (place t j).scan.blocks

instance (t : Text) (n j k : Nat) : Decidable (IsDefinition t n j k) :=
  decidable_of_iff
    ((n < j ∧ j < k) ∧ (place t n).scan.statement = none ∧ (Block.ofHead (place t n).cursor.rest).isDefinition = true ∧
      (∀ i ≤ j, n < i → (place t i).scan.statement ≠ none) ∧
      ((place t j).cursor.byte? = some '\x7b' ∧ (place t j).cursor.byteBefore? ≠ some '#') ∧
      (∀ i < k, j < i → (place t (j + 1)).scan.blocks <:+ (place t i).scan.blocks) ∧
      (place t k).scan.blocks = (place t j).scan.blocks)
    ⟨fun ⟨h₁, h₂, h₃, h₄, h₅, h₆, h₇⟩ => ⟨h₁, h₂, h₃, h₄, h₅, h₆, h₇⟩,
      fun ⟨h₁, h₂, h₃, h₄, h₅, h₆, h₇⟩ => ⟨h₁, h₂, h₃, h₄, h₅, h₆, h₇⟩⟩

/-- What the code mask shows from one place up to another. -/
def shownUpTo (t : Text) (n i : Nat) : Text := slice (codeMask t) (place t n).cursor.pos (place t i).cursor.pos

/-- At the end of the text the scanner stays. -/
theorem place_of_end (h : (place t i).cursor.byte? = none) (m : Nat) : place t (i + m) = place t i := by
  induction m with
  | zero => rfl
  | succ m ih =>
    show (place t (i + m)).next t = _
    rw [ih]
    exact next_of_end h

theorem unseen_of_statement {c : Cursor} (h : s.statement = some kind) : seen? t s c y = none := by
  rw [seen?, Declaration.Scan.admits, h]
  rfl

theorem unseen_of_block {c : Cursor} {block : Block} (h : block ∈ s.blocks) (hdefinition : block.isDefinition = true) :
    seen? t s c y = none := by
  have hany : s.blocks.any Block.isDefinition = true := List.any_eq_true.2 ⟨block, h, hdefinition⟩
  rw [seen?, Declaration.Scan.admits, hany]
  simp

namespace IsDefinition

theorem at_sign (h : IsDefinition t n j k) : (place t n).cursor.byte? = some '@' := by
  have hword : ∀ {w : Text}, startsWith (place t n).cursor.rest ('@' :: w) = true →
      (place t n).cursor.byte? = some '@' := by
    intro w hstarts
    obtain ⟨r, hr⟩ := List.isPrefixOf_iff_prefix.1 hstarts
    rw [Cursor.byte?, ← hr]
    rfl
  rcases ofHead_isDefinition h.kind with hstarts | hstarts <;> exact hword hstarts

/-- The text does not end in the head. -/
theorem byte_of_head (h : IsDefinition t n j k) (hj : i ≤ j) : ∃ y, (place t i).cursor.byte? = some y := by
  apply Option.ne_none_iff_exists'.1
  intro hend
  have hstays := place_of_end hend (j - i)
  rw [Nat.add_sub_cancel' hj] at hstays
  have hopens := h.opens.1
  rw [hstays, hend] at hopens
  cases hopens

/-- **The kind of the definition is known throughout its head.** -/
theorem statement_eq (h : IsDefinition t n j k) (hi : n < i) (hj : i ≤ j) :
    (place t i).scan.statement = some (Block.ofHead (place t n).cursor.rest) := by
  induction i, hi using Nat.le_induction with
  | base =>
    have hunseen : seen? t (place t n).scan (place t n).cursor '@' = none := by
      rw [seen?, if_neg]
      simp
    show ((place t n).next t).scan.statement = _
    rw [next_of_unseen h.at_sign hunseen]
    unfold Declaration.Scan.next
    rw [h.begins]
    rfl
  | succ i hi ih =>
    have hstatement := ih (Nat.le_of_succ_le hj)
    obtain ⟨y, hy⟩ := h.byte_of_head (Nat.le_of_succ_le hj)
    have hgoes := h.head (i + 1) hj (Nat.lt_succ_of_lt hi)
    have hnext := next_of_unseen hy (unseen_of_statement (t := t) (c := (place t i).cursor) (y := y) hstatement)
    rw [place, hnext] at hgoes ⊢
    exact Scan.next_statement hstatement hgoes

/-- The brace opens the body. -/
theorem blocks_body (h : IsDefinition t n j k) : (place t (j + 1)).scan.blocks =
    Block.ofHead (place t n).cursor.rest :: (place t j).scan.blocks := by
  have hstatement := h.statement_eq h.order.1 (Nat.le_refl j)
  show ((place t j).next t).scan.blocks = _
  rw [next_of_unseen h.opens.1 (unseen_of_statement hstatement)]
  unfold Declaration.Scan.next
  rw [hstatement, if_neg (by decide)]
  dsimp only
  rw [if_pos rfl, if_neg h.opens.2]
  rfl

/-- **The scanner sees no declaration, and comes to each byte.** -/
theorem goesOn (h : IsDefinition t n j k) (hi : n ≤ i) (hk : i < k) : ∃ y, (place t i).cursor.byte? = some y ∧
    seen? t (place t i).scan (place t i).cursor y = none := by
  by_cases hj : i ≤ j
  · obtain ⟨y, hy⟩ := h.byte_of_head hj
    refine ⟨y, hy, ?_⟩
    rcases Nat.lt_or_eq_of_le hi with hlt | rfl
    · exact unseen_of_statement (h.statement_eq hlt hj)
    · rw [h.at_sign] at hy
      cases hy
      rw [seen?, if_neg]
      simp
  · have hbody := h.body i hk (Nat.lt_of_not_le hj)
    rw [h.blocks_body] at hbody
    have hunseen : ∀ y, seen? t (place t i).scan (place t i).cursor y = none :=
      fun y => unseen_of_block (hbody.mem List.mem_cons_self) h.kind
    cases hy : (place t i).cursor.byte? with
    | some y => exact ⟨y, rfl, hunseen y⟩
    | none =>
      -- the scanner would stay in the body
      have hstays := place_of_end hy (k - i)
      rw [Nat.add_sub_cancel' (Nat.le_of_lt hk)] at hstays
      have hlength := hbody.length_le
      rw [← hstays, h.closes, List.length_cons] at hlength
      omega

theorem next_eq (h : IsDefinition t n j k) (hi : n ≤ i) (hk : i < k) : ∃ y, (place t i).cursor.byte? = some y ∧
    place t (i + 1) = ⟨(place t i).scan.next (place t i).cursor.byteBefore? (place t i).cursor.rest y,
      (place t i).cursor.advance 1⟩ := by
  obtain ⟨y, hy, hunseen⟩ := h.goesOn hi hk
  exact ⟨y, hy, next_of_unseen hy hunseen⟩

/-- What the byte at a place does to the open blocks. -/
theorem blocks_succ (h : IsDefinition t n j k) (hi : n ≤ i) (hk : i < k) :
    ∃ y, (place t i).cursor.byte? = some y ∧
      ((y = '\x7b' ∧ ∃ block, (place t (i + 1)).scan.blocks = block :: (place t i).scan.blocks) ∨
        (y = '\x7d' ∧ (place t (i + 1)).scan.blocks = (place t i).scan.blocks.tail ∧
          ((place t (i + 1)).scan.statement ≠ none → (place t i).scan.blocks.head? = some .interpolation)) ∨
        (y ≠ '\x7b' ∧ y ≠ '\x7d' ∧ (place t (i + 1)).scan.blocks = (place t i).scan.blocks)) := by
  obtain ⟨y, hy, hnext⟩ := h.next_eq hi hk
  refine ⟨y, hy, ?_⟩
  rw [hnext]
  exact Scan.next_blocks _ _ _ _

/-- So the places of the definition are those of its bytes. -/
theorem pos_eq (h : IsDefinition t n j k) (hi : n ≤ i) (hk : i ≤ k) :
    (place t i).cursor.pos = (place t n).cursor.pos + (i - n) := by
  induction i, hi using Nat.le_induction with
  | base => rw [Nat.sub_self, Nat.add_zero]
  | succ i hi ih =>
    obtain ⟨y, hy, hnext⟩ := h.next_eq hi hk
    have hpos := ih (Nat.le_of_lt hk)
    rw [hnext, pos_advance_byte hy, hpos]
    omega

/-! ## The text of the definition -/

theorem getElem?_at (h : IsDefinition t n j k) : (codeMask t)[(place t n).cursor.pos]? = some '@' := by
  rw [← (sound_place t n).reads.at.byte?]
  exact h.at_sign

/-- The brace before the last place closes the body. -/
theorem closing (h : IsDefinition t n j k) : byteBefore (codeMask t) (place t k).cursor.pos = some '\x7d' := by
  obtain ⟨i, rfl⟩ : ∃ i, k = i + 1 := ⟨k - 1, by have horder := h.order; omega⟩
  have hji : j ≤ i := Nat.le_of_lt_succ h.order.2
  have hlast := h.closes
  have hbody : i ≠ j → (place t j).scan.blocks.length < (place t i).scan.blocks.length := by
    intro hne
    have hsuffix := h.body i (Nat.lt_succ_self i) (Nat.lt_of_le_of_ne hji hne.symm)
    rw [h.blocks_body] at hsuffix
    exact hsuffix.length_le
  have hni : n ≤ i := Nat.le_trans (Nat.le_of_lt h.order.1) hji
  obtain ⟨y, hy, hblocks⟩ := h.blocks_succ hni (Nat.lt_succ_self i)
  have hbyte : byteBefore (codeMask t) (place t (i + 1)).cursor.pos = some y := by
    obtain ⟨z, hz, hnext⟩ := h.next_eq hni (Nat.lt_succ_self i)
    rw [← byteBefore?_eq (sound_place t (i + 1)).reads, hnext, ← hz.symm.trans hy]
    exact byteBefore?_advance hz
  by_cases heq : i = j
  · subst heq
    have hlength := congrArg List.length hlast
    rw [h.blocks_body, List.length_cons] at hlength
    omega
  · have hlonger := hbody heq
    rcases hblocks with ⟨-, block, hopened⟩ | ⟨rfl, -⟩ | ⟨-, -, hsame⟩
    · have hlength := congrArg List.length (hopened.symm.trans hlast)
      rw [List.length_cons] at hlength
      omega
    · exact hbyte
    · have hlength := congrArg List.length (hsame.symm.trans hlast)
      omega

/-- What is found from the definition on is found behind it. -/
theorem findOn_eq (h : IsDefinition t n j k) : findOn t (place t n).scan (place t n).cursor =
    findOn t (place t k).scan (place t k).cursor := by
  have hsame : ∀ i, n ≤ i → i ≤ k → findOn t (place t n).scan (place t n).cursor =
      findOn t (place t i).scan (place t i).cursor := by
    intro i hi
    induction i, hi using Nat.le_induction with
    | base => exact fun _ => rfl
    | succ i hi ih =>
      intro hk
      obtain ⟨y, hy, hunseen⟩ := h.goesOn hi hk
      rw [ih (Nat.le_of_lt hk), findOn_none hy hunseen, place, next_of_unseen hy hunseen]
  have horder := h.order
  exact hsame k (by omega) (Nat.le_refl k)

/-- **No declaration touches the definition**, which stands between two places at rest. -/
theorem clear (h : IsDefinition t n j k) : Clear t (place t n).cursor.pos (place t k).cursor.pos ∧
    Rests (t.take (place t k).cursor.pos) := by
  have hsound := sound_place t k
  have horder := h.order
  have hpos := h.pos_eq (i := k) (by omega) (Nat.le_refl k)
  have hlength := hsound.reads.at.length_rest
  rw [length_codeMask] at hlength
  -- the definition ends in a brace, behind which the text has come to rest
  have hclosing := h.closing
  obtain ⟨q, hq⟩ : ∃ q, (place t k).cursor.pos = q + 1 := ⟨(place t k).cursor.pos - 1, by omega⟩
  obtain ⟨before, hfind, hbefore⟩ := find_place t n
  refine ⟨⟨⟨by omega, by omega⟩, ?_, ?_, ?_, before, _, hfind, hbefore, ?_⟩, ?_⟩
  · exact rests_of_fresh (sound_place t n) h.begins h.at_sign rfl (by decide)
  · intro x hx
    rw [getElem?_of_run h.getElem?_at (by decide)] at hx
    cases hx
    rfl
  · intro x hx
    rw [hq] at hclosing hx
    have hbyte : byteBefore t (q + 1) = some '\x7d' := getElem?_of_run hclosing (by decide)
    rw [hbyte] at hx
    cases hx
    rfl
  · -- a declaration that is found later begins behind the definition
    intro d hd
    rw [h.findOn_eq] at hd
    obtain ⟨p, hp, -, -, hfound, hle⟩ := mem_findOn hsound hd
    obtain ⟨hstart, -⟩ := hp.over hfound
    rw [hstart]
    exact hle
  · rw [hq] at hclosing ⊢
    exact rests_through hclosing rfl (by decide) (by decide)

/-! ## Braces -/

theorem shownUpTo_succ (h : IsDefinition t n j k) (hi : n ≤ i) (hk : i < k)
    (hy : (place t i).cursor.byte? = some y) : shownUpTo t n (i + 1) = shownUpTo t n i ++ [y] := by
  have hpos := h.pos_eq hi (Nat.le_of_lt hk)
  have hpos' : (place t (i + 1)).cursor.pos = (place t n).cursor.pos + (i + 1 - n) := h.pos_eq (Nat.le_succ_of_le hi) hk
  have hplace : (place t (i + 1)).cursor.pos = (place t i).cursor.pos + 1 := by omega
  rw [(sound_place t i).reads.at.byte?] at hy
  rw [shownUpTo, shownUpTo, hplace, slice_succ (by omega) hy]

theorem length_shownUpTo (h : IsDefinition t n j k) (hi : n ≤ i) (hk : i ≤ k) : (shownUpTo t n i).length = i - n := by
  have hpos := h.pos_eq hi hk
  have hlength := (sound_place t i).reads.at.length_rest
  rw [shownUpTo, length_slice (by omega)]
  omega

theorem shownUpTo_eq_take (h : IsDefinition t n j k) (hi : n ≤ i) (hk : i ≤ k) :
    shownUpTo t n i = (shownUpTo t n k).take (i - n) := by
  have hpos := h.pos_eq hi hk
  have hpos' := h.pos_eq (Nat.le_trans hi hk) (Nat.le_refl k)
  have hcut : shownUpTo t n k = shownUpTo t n i ++ slice (codeMask t) (place t i).cursor.pos (place t k).cursor.pos :=
    slice_append (by omega) (by omega) _
  rw [hcut, ← h.length_shownUpTo hi hk, List.take_left]

/-- The definition begins with the sign. -/
theorem head?_shownUpTo (h : IsDefinition t n j k) : (shownUpTo t n k).head? = some '@' := by
  obtain ⟨hlt, hget⟩ := List.getElem?_eq_some_iff.1 h.getElem?_at
  rw [shownUpTo, slice_cons h.clear.1.inside.1 hlt, hget]
  rfl

/-- The definition ends with the brace. -/
theorem getLast?_shownUpTo (h : IsDefinition t n j k) : (shownUpTo t n k).getLast? = some '\x7d' := by
  have horder := h.order
  obtain ⟨i, rfl⟩ : ∃ i, k = i + 1 := ⟨k - 1, by omega⟩
  have hni : n ≤ i := by omega
  obtain ⟨y, hy, hnext⟩ := h.next_eq hni (Nat.lt_succ_self i)
  have hclosing := h.closing
  rw [← byteBefore?_eq (sound_place t (i + 1)).reads, hnext, byteBefore?_advance hy] at hclosing
  rw [h.shownUpTo_succ hni (Nat.lt_succ_self i) hy, List.getLast?_concat, hclosing]

/-- It begins with the word, and with the line feeds that follow. -/
theorem begins_with (h : IsDefinition t n j k) : ∃ word ∈ ["@mixin".toList, "@function".toList],
    ∃ r, (codeMask t).drop (place t n).cursor.pos = word ++ r := by
  rw [← (sound_place t n).reads.at.rest]
  rcases ofHead_isDefinition h.kind with hstarts | hstarts
  · obtain ⟨r, hr⟩ := List.isPrefixOf_iff_prefix.1 hstarts
    exact ⟨_, List.mem_cons_self, r, hr.symm⟩
  · obtain ⟨r, hr⟩ := List.isPrefixOf_iff_prefix.1 hstarts
    exact ⟨_, List.mem_cons_of_mem _ List.mem_cons_self, r, hr.symm⟩

/-- Unless the definition begins in an interpolation, its head leaves the blocks around it open. -/
theorem blocks_head (h : IsDefinition t n j k) (hstart : (place t n).scan.blocks.head? ≠ some .interpolation)
    (hi : n ≤ i) (hj : i ≤ j) : (place t n).scan.blocks <:+ (place t i).scan.blocks := by
  induction i, hi using Nat.le_induction with
  | base => exact List.suffix_refl _
  | succ i hi ih =>
    have hsuffix := ih (Nat.le_of_succ_le hj)
    have hgoes := h.head (i + 1) hj (Nat.lt_succ_of_le hi)
    obtain ⟨y, -, hblocks⟩ := h.blocks_succ hi (Nat.lt_trans hj h.order.2)
    rcases hblocks with ⟨-, block, hopened⟩ | ⟨-, hclosed, hinterp⟩ | ⟨-, -, hsame⟩
    · rw [hopened]
      exact hsuffix.trans (List.suffix_cons _ _)
    · -- an interpolation is closed that the head has opened
      obtain ⟨blocks, hinner⟩ := List.head?_eq_some_iff.1 (hinterp hgoes)
      rw [hclosed, hinner, List.tail_cons]
      rw [hinner] at hsuffix
      rcases List.suffix_cons_iff.1 hsuffix with heq | hsuffix
      · rw [heq] at hstart
        exact absurd rfl hstart
      · exact hsuffix
    · rw [hsame]
      exact hsuffix

/-- **The stack is as deep as the braces say.** -/
theorem count_eq (h : IsDefinition t n j k) (hi : n ≤ i) (hk : i < k) :
    (place t i).scan.blocks.length + (shownUpTo t n i).count '\x7d' =
      (place t n).scan.blocks.length + (shownUpTo t n i).count '\x7b' := by
  induction i, hi using Nat.le_induction with
  | base =>
    have hnone : shownUpTo t n n = [] := slice_self _ _
    rw [hnone]
    rfl
  | succ i hi ih =>
    have hcount := ih (Nat.lt_of_succ_lt hk)
    obtain ⟨y, hy, hblocks⟩ := h.blocks_succ hi (Nat.lt_of_succ_lt hk)
    rw [h.shownUpTo_succ hi (Nat.lt_of_succ_lt hk) hy, List.count_append, List.count_append, List.count_singleton,
      List.count_singleton]
    -- inside the definition the stack is never empty, so a closing brace has something to take away
    have hhead : i < j → (place t (i + 1)).scan.statement ≠ none :=
      fun hlt => h.head (i + 1) hlt (Nat.lt_succ_of_le hi)
    have hbody : j ≤ i → (place t (i + 1)).scan.blocks ≠ [] := by
      intro hle hnone
      have hsuffix := h.body (i + 1) hk (Nat.lt_succ_of_le hle)
      rw [h.blocks_body, hnone] at hsuffix
      cases List.suffix_nil.1 hsuffix
    rcases hblocks with ⟨rfl, block, hopened⟩ | ⟨rfl, hclosed, hinterp⟩ | ⟨hopen, hclose, hsame⟩
    · rw [hopened, List.length_cons]
      simp
      omega
    · have hsome : (place t i).scan.blocks ≠ [] := by
        intro hnone
        rcases Nat.lt_or_ge i j with hlt | hge
        · have hinterp' := hinterp (hhead hlt)
          rw [hnone] at hinterp'
          cases hinterp'
        · have hnonempty := hbody hge
          rw [hclosed, hnone] at hnonempty
          exact hnonempty rfl
      have hlength := List.length_pos_iff.2 hsome
      rw [hclosed, List.length_tail]
      simp
      omega
    · rw [hsame]
      simp [hopen, hclose]
      exact hcount

/-- **In the body more braces have been opened than closed.** -/
theorem count_lt (h : IsDefinition t n j k) (hstart : (place t n).scan.blocks.head? ≠ some .interpolation)
    (hi : j < i) (hk : i < k) : (shownUpTo t n i).count '\x7d' < (shownUpTo t n i).count '\x7b' := by
  have horder := h.order
  have hcount := h.count_eq (i := i) (by omega) hk
  have hhead := (h.blocks_head hstart (Nat.le_of_lt horder.1) (Nat.le_refl j)).length_le
  have hbody := (h.body i hk hi).length_le
  rw [h.blocks_body, List.length_cons] at hbody
  omega

end IsDefinition

end Flatsheet.Style
