import Flatsheet.Proofs.Conversion.Run
import Flatsheet.Proofs.Style.Interlace
import Flatsheet.Proofs.Style.Scanner
import Flatsheet.Proofs.Style.Usages
import Mathlib.Tactic.IntervalCases

/-!
# `Proofs.Style.AssetAddresses` — which addresses of a sheet become absolute

The scanner looks for `url(` in the comment mask, which shows strings, and for the end of the group in the code
mask, which does not. What it comes to is told by the two masks alone (`Reached`): it passes by an address that
lies in the group of another one that it comes to, and all that lie behind one that is never closed.

So the addresses that are made absolute are those that it comes to, whose group is closed and whose argument is a
path of the images or of the common theme, and all other bytes of the sheet stay (`paths_exact`). If no `url(` is
in a string, groups are nested, and nothing but an address that is never closed hides another one from the scanner
unless that lies inside it (`reached_iff_of_code`). A `url(` in a string is taken for an address, and its group
reaches into the code (`quoted_token_hides_address`).
-/

namespace Flatsheet.Style

open Text Check Mask

variable {t w : Text} {hosts : AssetHosts} {c : Cursor} {opener closer : Char} {i j k m n : Nat}

/-! ## Nested groups -/

/-- Up to its end the depth of a group is at least one. -/
theorem closingOffset?_drop {d : Int} (hd : 1 ≤ d) (h : closingOffset? opener closer d w = some n) (hm : m ≤ n) :
    ∃ e, 1 ≤ e ∧ closingOffset? opener closer e (w.drop m) = some (n - m) := by
  induction w generalizing d m n with
  | nil => cases h
  | cons x r ih =>
    cases m with
    | zero => exact ⟨d, hd, h⟩
    | succ m =>
      rw [closingOffset?] at h
      have further : ∀ {e : Int}, 1 ≤ e → (closingOffset? opener closer e r).map (· + 1) = some n →
          ∃ e, 1 ≤ e ∧ closingOffset? opener closer e ((x :: r).drop (m + 1)) = some (n - (m + 1)) := by
        intro e he hmap
        obtain ⟨l, hl, rfl⟩ := Option.map_eq_some_iff.1 hmap
        rw [Nat.add_sub_add_right]
        exact ih he hl (Nat.le_of_succ_le_succ hm)
      split at h
      · exact further (by omega) h
      · split at h
        · split at h
          · cases h
            exact absurd hm (Nat.not_succ_le_zero m)
          · exact further (by omega) h
        · exact further hd h

/-- **What is less deep is closed earlier.** -/
theorem closingOffset?_lt {d e : Int} (hd : 1 ≤ d) (hlt : d < e) (h : closingOffset? opener closer e w = some n) :
    ∃ m, m < n ∧ closingOffset? opener closer d w = some m := by
  induction w generalizing d e n with
  | nil => cases h
  | cons x r ih =>
    have further : ∀ {d e : Int}, 1 ≤ d → d < e → (closingOffset? opener closer e r).map (· + 1) = some n →
        ∃ m, m < n ∧ (closingOffset? opener closer d r).map (· + 1) = some m := by
      intro d e hd hlt hmap
      obtain ⟨l, hl, rfl⟩ := Option.map_eq_some_iff.1 hmap
      obtain ⟨m, hm, hclosed⟩ := ih hd hlt hl
      exact ⟨m + 1, Nat.succ_lt_succ hm, by rw [hclosed]; rfl⟩
    rw [closingOffset?] at h ⊢
    split at h
    · next hopener =>
      rw [if_pos hopener]
      exact further (by omega) (by omega) h
    · next hopener =>
      rw [if_neg hopener]
      split at h
      · next hcloser =>
        rw [if_pos hcloser]
        rw [if_neg (by omega)] at h
        split
        · obtain ⟨l, -, rfl⟩ := Option.map_eq_some_iff.1 h
          exact ⟨0, Nat.succ_pos l, rfl⟩
        · exact further (by omega) (by omega) h
      · next hcloser =>
        rw [if_neg hcloser]
        exact further hd hlt h

/-- **A group that opens in a group is closed in it.** -/
theorem closingOffset?_nested (hopener : w.head? = some opener) (h : closingOffset? opener closer 0 w = some n)
    (hm : 0 < m) (hlt : m ≤ n) (hinner : w[m]? = some opener) :
    ∃ l, m + l < n ∧ closingOffset? opener closer 0 (w.drop m) = some l := by
  obtain ⟨r, rfl⟩ := List.head?_eq_some_iff.1 hopener
  rw [closingOffset?, if_pos rfl] at h
  obtain ⟨n, hn, rfl⟩ := Option.map_eq_some_iff.1 h
  obtain ⟨m, rfl⟩ : ∃ l, m = l + 1 := ⟨m - 1, by omega⟩
  obtain ⟨e, he, hclosed⟩ := closingOffset?_drop (by omega) hn (Nat.le_of_succ_le_succ hlt)
  obtain ⟨r', hr'⟩ : ∃ r', r.drop m = opener :: r' := by
    apply List.head?_eq_some_iff.1
    rw [List.head?_drop]
    exact hinner
  rw [hr', closingOffset?, if_pos rfl] at hclosed
  obtain ⟨n', hn', heq⟩ := Option.map_eq_some_iff.1 hclosed
  obtain ⟨l, hl, hinside⟩ := closingOffset?_lt (by omega) (by omega : (0 : Int) + 1 < e + 1) hn'
  refine ⟨l + 1, by omega, ?_⟩
  rw [List.drop_succ_cons, hr', closingOffset?, if_pos rfl, hinside]
  rfl

/-! ## What the scanner comes to -/

/-- `url(` stands at the offset of the mask, and is not the end of a longer name. -/
def addressAt (shown : Text) (i : Nat) : Bool :=
  startsWith (shown.drop i) "url(".toList && !(byteBefore shown i).any isIdent

/-- The offset of the parenthesis that closes the `url(` at an offset. -/
def closing? (t : Text) (i : Nat) : Option Nat := matching? t (i + 3) '(' ')'

/-- What is written between the parentheses, without blanks and quotes around it. -/
def pathAt (t : Text) (i k : Nat) : Text := unquote (trim (slice t (i + 4) k))

/-- The `url(…)` of an absolute address. -/
def absoluteUrl (address : Text) : Text := "url(\"".toList ++ address ++ "\")".toList

/-- **The scanner comes to an address** if each one before it that it comes to is closed before it. -/
def Reached (t : Text) (i : Nat) : Prop :=
  addressAt (commentMask t) i = true ∧ ∀ j, j < i → Reached t j → ∃ k ∈ closing? t j, k < i
termination_by i

theorem reached_iff : Reached t i ↔
    addressAt (commentMask t) i = true ∧ ∀ j, j < i → Reached t j → ∃ k ∈ closing? t j, k < i := by
  rw [Reached]

/-- A mask in which an address stands shows its parenthesis. -/
theorem getElem?_of_addressAt {shown : Text} (h : addressAt shown i = true) : shown[i + 3]? = some '(' := by
  rw [addressAt, Bool.and_eq_true] at h
  obtain ⟨r, hr⟩ := List.isPrefixOf_iff_prefix.1 h.1
  rw [← List.getElem?_drop, ← hr]
  rfl

theorem closing?_of_addressAt (h : addressAt (commentMask t) i = true) :
    closing? t i = (closingOffset? '(' ')' 0 ((codeMask t).drop (i + 3))).map (· + (i + 3)) := by
  have hopener : t[i + 3]? = some '(' := getElem?_of_run (getElem?_of_addressAt h) (by decide)
  rw [closing?, matching?, if_pos hopener]

/-- **What the scanner sees at a place.** -/
theorem look_eq (h : c.Reads (commentMask t)) : hosts.look t (codeMask t) c =
    if addressAt (commentMask t) c.pos = true then
      match closing? t c.pos with
      | none => .over
      | some k => .found (⟨c.pos, k + 1⟩, hosts.absolute? (pathAt t c.pos k)) (k + 1 - c.pos)
    else .nothing := by
  have hhere : addressAt (commentMask t) c.pos =
      (startsWith c.rest "url(".toList && !c.byteBefore?.any isIdent) := by
    rw [addressAt, h.at.rest, byteBefore?_eq h]
  unfold AssetHosts.look
  split
  · next hno =>
    have hnone : addressAt (commentMask t) c.pos ≠ true := by
      rw [hhere]
      simp only [Bool.or_eq_true, Bool.not_eq_true'] at hno
      rcases hno with hno | hno
      · rw [hno]
        exact Bool.false_ne_true
      · rw [hno, Bool.not_true, Bool.and_false]
        exact Bool.false_ne_true
    rw [if_neg hnone]
  · next hyes =>
    have hsome : addressAt (commentMask t) c.pos = true := by
      rw [hhere]
      simpa using hyes
    rw [if_pos hsome, closing?_of_addressAt hsome]
    cases closingOffset? '(' ')' 0 ((codeMask t).drop (c.pos + 3)) with
    | none => rfl
    | some n =>
      have hstop : n + (c.pos + 3) = c.pos + 3 + n := Nat.add_comm _ _
      have hlength : c.pos + 3 + n + 1 - c.pos = 3 + n + 1 := by omega
      simp only [Option.map_some, hstop, hlength, pathAt]

/-- An address ends behind its beginning. -/
theorem lt_of_closing (h : addressAt (commentMask t) i = true) (hk : closing? t i = some k) : i < k := by
  rw [closing?_of_addressAt h] at hk
  obtain ⟨n, -, rfl⟩ := Option.map_eq_some_iff.1 hk
  omega

/-- **Of two addresses that the scanner comes to**, the first one is closed before the other one. -/
theorem Reached.closed (hi : Reached t i) (hj : Reached t j) (hlt : j < i) : ∃ k ∈ closing? t j, k < i :=
  (reached_iff.1 hi).2 j hlt hj

/-- The addresses that the scanner comes to from one on are that one, and those behind it. -/
theorem exists_reached_from {P : Nat → Nat → Prop} (hreached : Reached t i) (hk : closing? t i = some k) :
    (∃ j l, i ≤ j ∧ Reached t j ∧ closing? t j = some l ∧ P j l) ↔
      P i k ∨ ∃ j l, k + 1 ≤ j ∧ Reached t j ∧ closing? t j = some l ∧ P j l := by
  constructor
  · rintro ⟨j, l, hj, hlater, hl, hp⟩
    rcases Nat.eq_or_lt_of_le hj with rfl | hbehind
    · rw [hk] at hl
      cases hl
      exact .inl hp
    · obtain ⟨k', hk', hlt⟩ := hlater.closed hreached hbehind
      rw [hk] at hk'
      cases hk'
      exact .inr ⟨j, l, hlt, hlater, hl, hp⟩
  · rintro (hp | ⟨j, l, hj, hrest⟩)
    · exact ⟨i, k, Nat.le_refl i, hreached, hk, hp⟩
    · have hlt := lt_of_closing (reached_iff.1 hreached).1 hk
      exact ⟨j, l, by omega, hrest⟩

/-- Where the scanner looks again, each address before is closed. -/
theorem closed_behind (hreached : Reached t i) (hk : closing? t i = some k) {j : Nat} (hj : j < k + 1)
    (hr : Reached t j) : ∃ l ∈ closing? t j, l < k + 1 := by
  have hlt := lt_of_closing (reached_iff.1 hreached).1 hk
  rcases Nat.lt_trichotomy j i with hless | rfl | hmore
  · obtain ⟨l, hl, hle⟩ := hreached.closed hr hless
    exact ⟨l, hl, by omega⟩
  · exact ⟨k, hk, Nat.lt_succ_self k⟩
  · obtain ⟨l, hl, hle⟩ := hr.closed hreached hmore
    rw [hk] at hl
    cases hl
    omega

/-- **From a place on, the scanner finds the addresses that it comes to**, if each of those before is closed before
the place at which it looks again. -/
theorem mem_sweepFrom_addresses {seen : Text} {pos wait : Nat} {found : Span × Option Text}
    (hreads : (⟨seen, pos, w⟩ : Cursor).Reads (commentMask t))
    (hbefore : ∀ j, j < pos + wait → Reached t j → ∃ k ∈ closing? t j, k < pos + wait) :
    found ∈ sweepFrom (hosts.look t (codeMask t)) seen pos wait w ↔
      ∃ i k, pos + wait ≤ i ∧ Reached t i ∧ closing? t i = some k ∧
        found = (⟨i, k + 1⟩, hosts.absolute? (pathAt t i k)) := by
  induction w generalizing seen pos wait with
  | nil =>
    constructor
    · intro hmem
      cases hmem
    · rintro ⟨i, k, hi, hreached, -⟩
      have hend : (commentMask t).drop pos = [] := hreads.at.rest.symm
      have hparen := getElem?_of_addressAt (reached_iff.1 hreached).1
      obtain ⟨hlt, -⟩ := List.getElem?_eq_some_iff.1 hparen
      rw [List.drop_eq_nil_iff] at hend
      omega
  | cons x r ih =>
    have hnext : (⟨x :: seen, pos + 1, r⟩ : Cursor).Reads (commentMask t) := hreads.advance 1
    rw [sweepFrom]
    split
    · next hwait =>
      have hsum : pos + 1 + (wait - 1) = pos + wait := by omega
      rw [ih hnext (by rw [hsum]; exact hbefore), hsum]
    · next hwait =>
      obtain rfl : wait = 0 := Nat.eq_zero_of_not_pos hwait
      simp only [Nat.add_zero] at hbefore ⊢
      rw [look_eq hreads]
      by_cases haddress : addressAt (commentMask t) pos = true
      · have hreached : Reached t pos := reached_iff.2 ⟨haddress, hbefore⟩
        rw [if_pos haddress]
        cases hclosing : closing? t pos with
        | none =>
          -- nothing behind an address that is never closed is come to
          constructor
          · intro hmem
            cases hmem
          · rintro ⟨i, k, hi, hlater, hk, -⟩
            rcases Nat.eq_or_lt_of_le hi with rfl | hlt
            · rw [hclosing] at hk
              cases hk
            · obtain ⟨k', hk', -⟩ := hlater.closed hreached hlt
              rw [hclosing] at hk'
              cases hk'
        | some k =>
          have hlt := lt_of_closing haddress hclosing
          have hsum : pos + 1 + (k + 1 - pos - 1) = k + 1 := by omega
          have hclosed : ∀ j, j < k + 1 → Reached t j → ∃ l ∈ closing? t j, l < k + 1 :=
            fun j hj hr => closed_behind hreached hclosing hj hr
          show found ∈ _ :: sweepFrom _ _ _ (k + 1 - pos - 1) r ↔ _
          rw [List.mem_cons, ih hnext (by rw [hsum]; exact hclosed), hsum,
            exists_reached_from hreached hclosing]
      · rw [if_neg haddress]
        have hnone : ∀ {j}, Reached t j → j ≠ pos := by
          rintro j hr rfl
          exact haddress (reached_iff.1 hr).1
        have hclosed : ∀ j, j < pos + 1 + 0 → Reached t j → ∃ l ∈ closing? t j, l < pos + 1 + 0 := by
          intro j hj hr
          have hne := hnone hr
          obtain ⟨l, hl, hle⟩ := hbefore j (by omega) hr
          exact ⟨l, hl, by omega⟩
        show found ∈ sweepFrom _ _ _ 0 r ↔ _
        rw [ih hnext hclosed]
        constructor
        · rintro ⟨i, k, hi, hrest⟩
          exact ⟨i, k, by omega, hrest⟩
        · rintro ⟨i, k, hi, hr, hrest⟩
          have hne := hnone hr
          exact ⟨i, k, by omega, hr, hrest⟩

/-- **The edits are those of the addresses that the scanner comes to** and that become absolute. -/
theorem mem_edits {e : Span × Text} : e ∈ hosts.edits t ↔ ∃ i k a, Reached t i ∧ closing? t i = some k ∧
    hosts.absolute? (pathAt t i k) = some a ∧ e = (⟨i, k + 1⟩, absoluteUrl a) := by
  have hreads : (⟨[], 0, commentMask t⟩ : Cursor).Reads (commentMask t) := ⟨rfl, rfl⟩
  have hfound : ∀ found, found ∈ sweepFrom (hosts.look t (codeMask t)) [] 0 0 (commentMask t) ↔ _ :=
    fun found => mem_sweepFrom_addresses hreads fun j hj => absurd hj (Nat.not_lt_zero j)
  rw [AssetHosts.edits, List.mem_filterMap]
  constructor
  · rintro ⟨found, hmem, hedit⟩
    obtain ⟨i, k, -, hreached, hk, rfl⟩ := (hfound found).1 hmem
    obtain ⟨a, ha, rfl⟩ := Option.map_eq_some_iff.1 hedit
    exact ⟨i, k, a, hreached, hk, ha, rfl⟩
  · rintro ⟨i, k, a, hreached, hk, ha, rfl⟩
    refine ⟨_, (hfound _).2 ⟨i, k, Nat.zero_le _, hreached, hk, rfl⟩, ?_⟩
    rw [ha]
    rfl

/-! ## Addresses lie apart -/

/-- Of what is found, some is kept, each with its span. -/
theorem sublist_filterMap {α β : Type} {f : Span × α → Option (Span × β)}
    (h : ∀ x y, f x = some y → y.1 = x.1) (l : List (Span × α)) :
    ((l.filterMap f).map (·.1)).Sublist (l.map (·.1)) := by
  induction l with
  | nil => exact .slnil
  | cons x l ih =>
    rw [List.filterMap_cons, List.map_cons]
    split
    · exact ih.cons x.1
    · next y hy =>
      rw [List.map_cons, h x y hy]
      exact ih.cons_cons x.1

/-- Addresses are found in the comment mask, which has the length of the code mask. -/
theorem addresses_apart (hosts : AssetHosts) (t : Text) : Apart t ((hosts.edits t).map (·.1)) := by
  have hspans : Spans (hosts.look t (codeMask t)) (commentMask t) (·.1) := by
    intro c a n hc hlook
    obtain ⟨hstart, hstop, hn, hlength⟩ := AssetHosts.look_found hlook
    rw [length_codeMask, ← length_commentMask] at hlength
    exact ⟨hstart, hstop, hn, hlength⟩
  have hsub : ((hosts.edits t).map (·.1)).Sublist
      ((sweep (hosts.look t (codeMask t)) (commentMask t)).map (·.1)) := by
    apply sublist_filterMap
    intro x y hy
    obtain ⟨a, -, rfl⟩ := Option.map_eq_some_iff.1 hy
    rfl
  have happart := apart_sublist (sweep_apart hspans) hsub
  refine ⟨happart.1, ?_⟩
  rw [← length_commentMask t]
  exact happart.2

/-! ## Addresses in code -/

/-- **In code, groups are nested**: an address in the group of another one is closed before that. -/
theorem closing?_nested (hi : addressAt (codeMask t) i = true) (hj : addressAt (codeMask t) j = true)
    (hshown : addressAt (commentMask t) i = true) (hshown' : addressAt (commentMask t) j = true) (hij : i < j)
    (hk : closing? t i = some k) (hjk : j ≤ k) : ∃ l ∈ closing? t j, l < k := by
  rw [closing?_of_addressAt hshown] at hk
  obtain ⟨n, hn, rfl⟩ := Option.map_eq_some_iff.1 hk
  have hopener : ((codeMask t).drop (i + 3)).head? = some '(' := by
    rw [List.head?_drop]
    exact getElem?_of_addressAt hi
  have hinner : ((codeMask t).drop (i + 3))[j - i]? = some '(' := by
    rw [List.getElem?_drop, show i + 3 + (j - i) = j + 3 by omega]
    exact getElem?_of_addressAt hj
  -- the closing parenthesis is none of the four bytes of the inner address
  have hbehind : j - i ≤ n := by
    have hcloser := getElem?_of_closingOffset hn
    rw [List.getElem?_drop] at hcloser
    rw [addressAt, Bool.and_eq_true] at hj
    obtain ⟨r, hr⟩ := List.isPrefixOf_iff_prefix.1 hj.1
    by_contra hlt
    obtain ⟨m, hm, hplace⟩ : ∃ m, m < 4 ∧ i + 3 + n = j + m := ⟨i + 3 + n - j, by omega, by omega⟩
    rw [hplace, ← List.getElem?_drop, ← hr] at hcloser
    interval_cases m <;> cases hcloser
  obtain ⟨l, hl, hclosed⟩ := closingOffset?_nested hopener hn (by omega) hbehind hinner
  rw [List.drop_drop, show i + 3 + (j - i) = j + 3 by omega] at hclosed
  rw [closing?_of_addressAt hshown', hclosed]
  exact ⟨l + (j + 3), rfl, by omega⟩

/-- **If no address is in a string, only one that is not closed hides another from the scanner**: it comes to an
address exactly if each one before is closed before. -/
theorem reached_iff_of_code (h : ∀ i, addressAt (commentMask t) i = addressAt (codeMask t) i) : Reached t i ↔
    addressAt (codeMask t) i = true ∧
      ∀ j, j < i → addressAt (codeMask t) j = true → ∃ k ∈ closing? t j, k < i := by
  constructor
  · intro hreached
    obtain ⟨haddress, hbefore⟩ := reached_iff.1 hreached
    refine ⟨h i ▸ haddress, ?_⟩
    intro j hj hinner
    by_cases hr : Reached t j
    · exact hbefore j hj hr
    · -- it has been passed by in the group of another one
      rw [reached_iff, h j] at hr
      simp only [hinner, true_and, not_forall, not_exists, not_and, Nat.not_lt] at hr
      obtain ⟨o, hoj, ho, hlast⟩ := hr
      obtain ⟨k, hk, hki⟩ := hbefore o (by omega) ho
      have houter := (reached_iff.1 ho).1
      obtain ⟨l, hl, hlk⟩ := closing?_nested (h o ▸ houter) hinner houter ((h j).trans hinner) hoj hk (hlast k hk)
      exact ⟨l, hl, by omega⟩
  · rintro ⟨haddress, hbefore⟩
    refine reached_iff.2 ⟨(h i).trans haddress, ?_⟩
    intro j hj hr
    exact hbefore j hj (h j ▸ (reached_iff.1 hr).1)

/-! ## The pass -/

/-- **Which addresses the pass makes absolute.** The sheet lies before us as gaps and `url(…)` between them, the
result has the same gaps and absolute addresses, and they are counted. Each is one that the scanner comes to, with
its group, and whose path is one of the images or of the common theme. If no `url(` is in a string, the scanner comes
to those of the code before which each one is closed. -/
theorem paths_exact (hosts : AssetHosts) (c : Conversion) :
    (∃ (pieces : List (Text × Span × Text)) (tail : Text),
      c.content = interlace (fun e => slice c.content e.1.start e.1.stop) pieces tail ∧
      (Pass.paths.apply hosts c).1.content = interlace (·.2) pieces tail ∧
      (Pass.paths.apply hosts c).1.counters.pathsConverted = c.counters.pathsConverted + pieces.length ∧
      ∀ i e, (i, e) ∈ offsets (fun e => slice c.content e.1.start e.1.stop) 0 pieces ↔
        ∃ k a, Reached c.content i ∧ closing? c.content i = some k ∧
          hosts.absolute? (pathAt c.content i k) = some a ∧ e = (⟨i, k + 1⟩, absoluteUrl a)) ∧
    ((∀ i, addressAt (commentMask c.content) i = addressAt (codeMask c.content) i) →
      ∀ i, Reached c.content i ↔ addressAt (codeMask c.content) i = true ∧
        ∀ j, j < i → addressAt (codeMask c.content) j = true → ∃ k ∈ closing? c.content j, k < i) := by
  constructor
  · obtain ⟨pieces, tail, hpieces, hoffsets, htext, hresult⟩ :=
      exists_interlace (fun e : Span × Text => e.1) (fun e => e.2) (addresses_apart hosts c.content)
    obtain ⟨hcontent, hcounters⟩ := apply_paths hosts c
    refine ⟨pieces, tail, htext, ?_, ?_, ?_⟩
    · have hedits : (hosts.edits c.content).map (fun e => (e.1, e.2)) = hosts.edits c.content := List.map_id _
      rw [hedits] at hresult
      exact hcontent.trans hresult
    · have hcount : (Pass.paths.apply hosts c).1.counters.pathsConverted =
          c.counters.pathsConverted + (hosts.edits c.content).length := congrArg (·.pathsConverted) hcounters
      rw [hcount, ← hpieces, List.length_map]
    · intro i e
      rw [hoffsets, List.mem_map]
      constructor
      · rintro ⟨e', hmem, heq⟩
        cases heq
        obtain ⟨i, k, a, hreached, hk, ha, rfl⟩ := mem_edits.1 hmem
        exact ⟨k, a, hreached, hk, ha, rfl⟩
      · rintro ⟨k, a, hreached, hk, ha, rfl⟩
        exact ⟨_, mem_edits.2 ⟨i, k, a, hreached, hk, ha, rfl⟩, rfl⟩
  · intro hcode i
    exact reached_iff_of_code hcode

/-- A sheet with an address in the group of another one, one in a comment and one behind them. -/
def nestedSheet : Text :=
  ".a \x7b b: url(url(../images/a.png)) /* url(../images/b.png) */ url(../images/c.png); \x7d".toList

theorem nestedSheet_reached :
    (∀ i, addressAt (commentMask nestedSheet) i = addressAt (codeMask nestedSheet) i) ∧
    Reached nestedSheet 8 ∧ ¬ Reached nestedSheet 12 ∧ ¬ Reached nestedSheet 37 ∧ Reached nestedSheet 61 ∧
    (Pass.paths.apply ⟨"/t".toList, "/c".toList⟩ (.start nestedSheet)).1.content =
      ".a \x7b b: url(url(../images/a.png)) /* url(../images/b.png) */ url(\"/t/images/c.png\"); \x7d".toList := by
  have hmasks : commentMask nestedSheet = codeMask nestedSheet := by decide +kernel
  have hcode : ∀ i, addressAt (commentMask nestedSheet) i = addressAt (codeMask nestedSheet) i :=
    fun i => congrArg (addressAt · i) hmasks
  have hreached := (paths_exact ⟨"/t".toList, "/c".toList⟩ (.start nestedSheet)).2 hcode
  refine ⟨hcode, (hreached 8).2 ?_, mt (hreached 12).1 ?_, mt (hreached 37).1 ?_, (hreached 61).2 ?_, ?_⟩ <;>
    decide +kernel

/-- A sheet with `url(` in a string, before an address of the images. -/
def quotedToken : Text := ".a \x7b content: \"url(\"; background: url(../images/x.png); \x7d\n".toList

/-- **A `url(` in a string hides the addresses behind it**: the scanner takes it for an address that is never closed,
and the sheet stays as it is, although an address of the code, closed and of the images, is in it. -/
theorem quoted_token_hides_address :
    addressAt (codeMask quotedToken) 34 = true ∧ closing? quotedToken 34 = some 53 ∧
    ({} : ConversionOptions).hosts.absolute? (pathAt quotedToken 34 53) =
      some "/wp-content/themes/DealerInspireDealerTheme/images/x.png".toList ∧
    (Pass.paths.apply ({} : ConversionOptions).hosts (.start quotedToken)).1.content = quotedToken ∧
    (Pass.paths.apply ({} : ConversionOptions).hosts (.start quotedToken)).1.counters.pathsConverted = 0 := by
  refine ⟨?_, ?_, ?_, ?_, ?_⟩ <;> decide +kernel

end Flatsheet.Style
