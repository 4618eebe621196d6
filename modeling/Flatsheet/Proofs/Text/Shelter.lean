import Flatsheet.Proofs.Text.LineZones

/-!
# `Proofs.Text.Shelter` — changes that leave comments alone

A text is `Sheltered` in another one if its bytes are found there in their order, and those that stood in a comment
still do. Anything may have been put in. Blanks, and a few bytes that repairs leave out (`Spare`), may be missing.

The smallest change is one mild byte that is put in, or left out, between bytes that are not linked. A line that is
changed by a script of such changes is `Retouched`. Each of them leaves all other bytes in their zones, so the line is
sheltered in the new one, with the same braces, and the lines behind it are read as they were (`Retouched.reads`).
-/

namespace Flatsheet.Mask

open Text

variable {s : State} {c : Char} {a b l l' m r t w : Text} {u v x : List (Char × Zone)}

/-! ## Sheltered texts -/

/-- The byte may be left out of a line: a blank, a parenthesis, a semicolon, or the dollar sign of a reference. -/
def Spare (c : Char) : Prop := isBlank c = true ∨ c ∈ [')', ';', '$']

instance (c : Char) : Decidable (Spare c) := inferInstanceAs (Decidable (isBlank c = true ∨ c ∈ [')', ';', '$']))

/-- **The bytes of one text are found in another one, in order, and in a comment if they were in one.** -/
inductive Sheltered : List (Char × Zone) → List (Char × Zone) → Prop
  | nil : Sheltered [] []
  | kept {c : Char} {z z' : Zone} {u v : List (Char × Zone)} (h : z = .comment → z' = .comment)
      (rest : Sheltered u v) : Sheltered ((c, z) :: u) ((c, z') :: v)
  | added {b : Char × Zone} {u v : List (Char × Zone)} (rest : Sheltered u v) : Sheltered u (b :: v)
  | left {c : Char} {z : Zone} {u v : List (Char × Zone)} (h : Spare c) (rest : Sheltered u v) :
      Sheltered ((c, z) :: u) v

namespace Sheltered

theorem refl (u : List (Char × Zone)) : Sheltered u u := by
  induction u with
  | nil => exact .nil
  | cons b u ih => exact .kept id ih

theorem append {u' v' : List (Char × Zone)} (h : Sheltered u v) (h' : Sheltered u' v') :
    Sheltered (u ++ u') (v ++ v') := by
  induction h with
  | nil => exact h'
  | kept hz _ ih => exact .kept hz ih
  | added _ ih => exact .added ih
  | left hc _ ih => exact .left hc ih

/-- Anything can be put in. -/
theorem of_added (v : List (Char × Zone)) : Sheltered [] v := by
  induction v with
  | nil => exact .nil
  | cons b v ih => exact .added ih

theorem trans (h : Sheltered u v) (h' : Sheltered v x) : Sheltered u x := by
  -- the induction is on the second step; what it does with a byte is followed back through the first one
  induction h' generalizing u with
  | nil => exact h
  | added _ ih => exact .added (ih h)
  | @kept c z z' v x hz rest ih =>
    generalize hmid : (c, z) :: v = mid at h
    induction h with
    | nil => cases hmid
    | kept hz' rest' _ =>
      obtain ⟨hb, rfl⟩ := List.cons.inj hmid
      obtain ⟨rfl, rfl⟩ := Prod.mk.inj hb
      exact .kept (fun hcomment => hz (hz' hcomment)) (ih rest')
    | added rest' _ =>
      obtain ⟨-, rfl⟩ := List.cons.inj hmid
      exact .added (ih rest')
    | left hc _ ih' => exact .left hc (ih' hmid)
  | @left c z v x hc rest ih =>
    generalize hmid : (c, z) :: v = mid at h
    induction h with
    | nil => cases hmid
    | kept _ rest' _ =>
      obtain ⟨hb, rfl⟩ := List.cons.inj hmid
      obtain ⟨rfl, rfl⟩ := Prod.mk.inj hb
      exact .left hc (ih rest')
    | added rest' _ =>
      obtain ⟨-, rfl⟩ := List.cons.inj hmid
      exact ih rest'
    | left hc' _ ih' => exact .left hc' (ih' hmid)

/-- A byte that may not be left out is in comments as often as before. -/
theorem count_le (h : Sheltered u v) (hc : ¬ Spare c) : u.count (c, .comment) ≤ v.count (c, .comment) := by
  induction h with
  | nil => exact Nat.le_refl _
  | @kept d z z' u v hz _ ih =>
    have hone : (if (d, z) == (c, Zone.comment) then 1 else 0) ≤ if (d, z') == (c, Zone.comment) then 1 else 0 := by
      split
      · next heq =>
        obtain ⟨rfl, hcomment⟩ := Prod.mk.inj (eq_of_beq heq)
        exact Nat.le_of_eq (by rw [hz hcomment, if_pos (beq_self_eq_true _)])
      · exact Nat.zero_le _
    rw [List.count_cons, List.count_cons]
    exact Nat.add_le_add ih hone
  | added _ ih => exact Nat.le_trans ih (List.count_le_count_cons ..)
  | left hspare _ ih =>
    rw [List.count_cons_of_ne]
    · exact ih
    · rintro heq
      exact hc ((Prod.mk.inj heq).1 ▸ hspare)

/-- **What stands in a comment is still in one** where text is put behind it. -/
theorem of_zones_append (t : Text) (h : Inert w.head?) : Sheltered (zones t) (zones (t ++ w)) := by
  have hfront : zoned none .code w.head? t = zones t := zoned_of_inert quoted_code h inert_none t
  obtain ⟨v, hv⟩ : ∃ v, zones (t ++ w) = zones t ++ v := ⟨_, by rw [zones, zoned_append, Option.or_none, hfront]⟩
  rw [hv]
  simpa using (refl (zones t)).append (.of_added v)

end Sheltered

/-! ## Retouched lines -/

/-- **A script of small changes**: mild bytes are put in and left out, each between bytes that are not linked. -/
inductive Retouched : Text → Text → Prop
  | refl (l : Text) : Retouched l l
  | put {c : Char} {a r l : Text} (hc : Mild c) (hbrace : c ≠ '{' ∧ c ≠ '}') (h : ¬ Linked a.getLast? r.head?)
      (rest : Retouched (a ++ c :: r) l) : Retouched (a ++ r) l
  | leave {c : Char} {a r l : Text} (hc : Mild c) (hspare : Spare c) (h : ¬ Linked a.getLast? r.head?)
      (rest : Retouched (a ++ r) l) : Retouched (a ++ c :: r) l

/-- A byte that may be left out is no brace. -/
theorem Spare.not_brace (h : Spare c) : c ≠ '{' ∧ c ≠ '}' := by
  constructor <;> (rintro rfl; revert h; decide)

namespace Retouched

theorem trans (h : Retouched l m) (h' : Retouched m t) : Retouched l t := by
  induction h with
  | refl l => exact h'
  | put hc hbrace hlinked _ ih => exact .put hc hbrace hlinked (ih h')
  | leave hc hspare hlinked _ ih => exact .leave hc hspare hlinked (ih h')

/-- **Reading a retouched line.** The line is sheltered in the new one, the braces of its code are the same, and so is
the state behind it. -/
theorem reads (h : Retouched l l') (hs : Begins s) : Sheltered (lineZones s l) (lineZones s l') ∧
    net (lineZones s l') = net (lineZones s l) ∧ lineEnd s l' = lineEnd s l := by
  -- along the script; each change is one byte more or less among the zones
  induction h with
  | refl l => exact ⟨.refl _, rfl, rfl⟩
  | @put c a r l hc hbrace hlinked _ ih =>
    obtain ⟨⟨z, v, w, hwith, hwithout, -⟩, hend⟩ := lineZones_put hs hc hlinked
    obtain ⟨hsheltered, hnet, hend'⟩ := ih
    have hone : Sheltered (v ++ w) (v ++ (c, z) :: w) := (Sheltered.refl v).append (.added (.refl w))
    rw [hwith] at hsheltered hnet
    rw [hwithout]
    refine ⟨hone.trans hsheltered, ?_, hend'.trans hend⟩
    rw [hnet, net_append, net_append, net_cons, net_of_ne fun _ => hbrace, Int.zero_add]
  | @leave c a r l hc hspare hlinked _ ih =>
    obtain ⟨⟨z, v, w, hwith, hwithout, -⟩, hend⟩ := lineZones_put hs hc hlinked
    obtain ⟨hsheltered, hnet, hend'⟩ := ih
    have hone : Sheltered (v ++ (c, z) :: w) (v ++ w) := (Sheltered.refl v).append (.left hspare (.refl w))
    rw [hwithout] at hsheltered hnet
    rw [hwith]
    refine ⟨hone.trans hsheltered, ?_, hend'.trans hend.symm⟩
    rw [hnet, net_append, net_append, net_cons, net_of_ne fun _ => hspare.not_brace, Int.zero_add]

/-- Mild bytes can be put in all at once. -/
theorem puts (hw : ∀ c ∈ w, Mild c ∧ c ≠ '{' ∧ c ≠ '}') (h : ¬ Linked a.getLast? r.head?) :
    Retouched (a ++ r) (a ++ w ++ r) := by
  induction w generalizing a with
  | nil =>
    rw [List.append_nil]
    exact .refl _
  | cons c w ih =>
    obtain ⟨hc, hbrace⟩ := hw c List.mem_cons_self
    have hbehind : ¬ Linked (a ++ [c]).getLast? r.head? := by
      rw [List.getLast?_concat]
      exact hc.not_linked_left r.head?
    have hrest := ih (a := a ++ [c]) (fun d hd => hw d (List.mem_cons_of_mem c hd)) hbehind
    apply Retouched.put hc hbrace h
    simpa using hrest

/-- Nothing is linked to the end of a line. -/
theorem not_linked_none (y : Option Char) : ¬ Linked y none := by simp [Linked]

/-- Bytes at the end of a line can be left out. -/
theorem leaves_end (hw : ∀ c ∈ w, Mild c ∧ Spare c) : Retouched (a ++ w) a := by
  induction w using List.reverseRecOn with
  | nil =>
    rw [List.append_nil]
    exact .refl _
  | append_singleton w c ih =>
    obtain ⟨hc, hspare⟩ := hw c (List.mem_append_right w List.mem_cons_self)
    have hrest := ih fun d hd => hw d (List.mem_append_left [c] hd)
    rw [← List.append_assoc]
    apply Retouched.leave hc hspare (not_linked_none _)
    rwa [List.append_nil]

/-- The blanks at the end of a line can be left out. -/
theorem trimRight (h : '\n' ∉ l) : Retouched l (trimRight l) := by
  obtain ⟨blanks, hl, hblanks⟩ := eq_trimRight_append l
  have hend : Retouched (Text.trimRight l ++ blanks) (Text.trimRight l) := by
    apply leaves_end
    intro c hc
    have hline : c ≠ '\n' := by
      rintro rfl
      exact h (hl ▸ List.mem_append_right _ hc)
    exact ⟨mild_of_blank (hblanks c hc) hline, .inl (hblanks c hc)⟩
  rwa [← hl] at hend

end Retouched

end Flatsheet.Mask
