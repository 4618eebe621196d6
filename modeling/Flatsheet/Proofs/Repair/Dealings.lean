import Flatsheet.Proofs.System.FileTree
import Flatsheet.Repair.Surroundings

/-!
# `Proofs.Repair.Dealings` — what a verification does in its world, and in which order

A verification deals with its world in six ways only: it writes and removes files, reads the log, sleeps,
asks whether it is cancelled, and has the watched directory put back. `Dealings env w ds w'` says that the
dealings `ds`, each with what came of it, lead from the world `w` to the world `w'`. The world can be of
any type, also one that remembers all that is done in it, so the dealings behind a run are what the run
really does.

## Contents

* `Dealing`, `Dealing.Leads`, `Dealings`
* `lastWritten`: the text written last to a path
* `kept_of_leads`: what a write or a removal can change
* `Aloof`, `RevertsAloof`: surroundings that leave some locations alone; `Dealings.stands`: what stays
  there
* `Surroundings.sleeping`: surroundings in which something happens during sleeps only
* `not_present_of_removals`: what has been removed is gone
-/

namespace Flatsheet.Repair

open Text

/-! ## Dealings -/

/-- One dealing with the world, and what came of it. -/
inductive Dealing
  | wrote (path content : Text) (result : Except FileTree.WriteError Unit)
  | removed (path : Text) (result : Except FileError Unit)
  | readLog (count : Nat) (reading : LogReading)
  | slept (milliseconds : Int)
  | asked (cancelled : Bool)
  | reverted (directory : Text) (reversion : Reversion)

variable {σ : Type} {env : Surroundings σ} {w w' w'' : σ} {d : Dealing} {ds es : List Dealing}

/-- The dealing leads from one world to another. -/
def Dealing.Leads (env : Surroundings σ) : Dealing → σ → σ → Prop
  | wrote path content result, w, w' => env.writeFile path content w = (result, w')
  | removed path result, w, w' => env.remove path w = (result, w')
  | readLog count reading, w, w' => env.tail count w = (reading, w')
  | slept milliseconds, w, w' => env.sleep milliseconds w = w'
  | asked cancelled, w, w' => env.isCancelled w = (cancelled, w')
  | reverted directory reversion, w, w' => env.revert directory w = (reversion, w')

/-- **The dealings, one after the other, lead from one world to another.** -/
inductive Dealings (env : Surroundings σ) : σ → List Dealing → σ → Prop
  | nil {w : σ} : Dealings env w [] w
  | cons {w w' w'' : σ} {d : Dealing} {ds : List Dealing} (first : d.Leads env w w')
      (others : Dealings env w' ds w'') : Dealings env w (d :: ds) w''

namespace Dealings

theorem single (h : d.Leads env w w') : Dealings env w [d] w' := .cons h .nil

theorem append (h : Dealings env w ds w') (h' : Dealings env w' es w'') :
    Dealings env w (ds ++ es) w'' := by
  induction h with
  | nil => exact h'
  | cons first _ ih => exact .cons first (ih h')

/-- Dealings can be parted anywhere. -/
theorem split (h : Dealings env w (ds ++ es) w'') :
    ∃ w', Dealings env w ds w' ∧ Dealings env w' es w'' := by
  induction ds generalizing w with
  | nil => exact ⟨w, .nil, h⟩
  | cons d ds ih =>
    cases h with
    | cons first others =>
      obtain ⟨w', hds, hes⟩ := ih others
      exact ⟨w', .cons first hds, hes⟩

/-- **What each dealing keeps, all of them keep.** -/
theorem keeps {P : σ → Prop} (h : Dealings env w ds w')
    (step : ∀ d ∈ ds, ∀ u u', d.Leads env u u' → P u → P u') (hw : P w) : P w' := by
  induction h with
  | nil => exact hw
  | cons first _ ih =>
    exact ih (fun d hd => step d (List.mem_cons_of_mem _ hd))
      (step _ List.mem_cons_self _ _ first hw)

end Dealings

/-! ## Kinds of dealings -/

namespace Dealing

/-- The verification waits: it reads the log, sleeps or asks whether it is cancelled. -/
def IsWaiting : Dealing → Prop
  | readLog .. => True
  | slept _ => True
  | asked _ => True
  | _ => False

/-- The verification writes to one of the paths. -/
def IsWriteTo (paths : List Text) : Dealing → Prop
  | wrote path .. => path ∈ paths
  | _ => False

/-- The verification removes one of the paths. -/
def IsRemovalOf (paths : List Text) : Dealing → Prop
  | removed path _ => path ∈ paths
  | _ => False

/-- The path that is removed. -/
def removedPath? : Dealing → Option Text
  | removed path _ => some path
  | _ => none

/-- A removal does not fail. -/
def succeeds : Dealing → Bool
  | removed _ (.error _) => false
  | _ => true

/-- The text that is written to a path. -/
def textFor? (path : Text) : Dealing → Option Text
  | wrote p content (.ok ()) => if p = path then some content else none
  | _ => none

/-- The watched directory is put back. -/
def IsReversion : Dealing → Prop
  | reverted .. => True
  | _ => False

/-- The locations that a dealing touches, apart from directories that it makes. -/
def Touches (t : FileTree) : Dealing → Location → Prop
  | wrote path _ (.ok ()), l => l = t.place path ∨ l = t.place (FileTree.temporaryName path)
  | wrote path _ (.error _), l => l = t.place (FileTree.temporaryName path)
  | removed path _, l => l = t.place path
  | _, _ => False

/-- Where a dealing makes directories that are missing: on the way to a file that is written. -/
def makes (t : FileTree) : Dealing → List Location
  | wrote path .. => t.way (Path.parent path)
  | _ => []

end Dealing

/-- **The text written last to a path.** -/
def lastWritten (path : Text) (ds : List Dealing) : Option Text :=
  (ds.filterMap (·.textFor? path)).getLast?

theorem lastWritten_append_of_none {path : Text} (h : ∀ d ∈ es, d.textFor? path = none) :
    lastWritten path (ds ++ es) = lastWritten path ds := by
  rw [lastWritten, List.filterMap_append, List.filterMap_eq_nil_iff.2 h, List.append_nil, lastWritten]

theorem textFor?_of_waiting (h : d.IsWaiting) (path : Text) : d.textFor? path = none := by
  cases d <;> first | rfl | exact absurd h id

theorem textFor?_of_removal {paths : List Text} (h : d.IsRemovalOf paths) (path : Text) :
    d.textFor? path = none := by
  cases d <;> first | rfl | exact absurd h id

theorem textFor?_of_write {paths : List Text} {path : Text} (h : d.IsWriteTo paths)
    (hp : path ∉ paths) : d.textFor? path = none := by
  cases d with
  | wrote p content result =>
    have hne : p ≠ path := fun he => hp (he ▸ h)
    cases result with
    | error e => rfl
    | ok u => simp [Dealing.textFor?, hne]
  | _ => rfl

theorem isWriteTo_mono {paths paths' : List Text} (h : paths ⊆ paths') (hd : d.IsWriteTo paths) :
    d.IsWriteTo paths' := by
  cases d with
  | wrote path => exact h hd
  | _ => exact hd

theorem isRemovalOf_mono {paths paths' : List Text} (h : paths ⊆ paths') (hd : d.IsRemovalOf paths) :
    d.IsRemovalOf paths' := by
  cases d with
  | removed path => exact h hd
  | _ => exact hd

/-! ## What stands in its place -/

/-- **The surroundings leave some locations alone**: whatever happens while the verification sleeps, reads
the log or asks whether it is cancelled, the same is at these locations afterwards, and relative paths
still start at the same directory. -/
structure Aloof (env : Surroundings σ) (ls : List Location) : Prop where
  tail : ∀ n w, (env.tree (env.tail n w).2).home = (env.tree w).home ∧
    ∀ l ∈ ls, (env.tree (env.tail n w).2).at? l = (env.tree w).at? l
  sleep : ∀ ms w, (env.tree (env.sleep ms w)).home = (env.tree w).home ∧
    ∀ l ∈ ls, (env.tree (env.sleep ms w)).at? l = (env.tree w).at? l
  isCancelled : ∀ w, (env.tree (env.isCancelled w).2).home = (env.tree w).home ∧
    ∀ l ∈ ls, (env.tree (env.isCancelled w).2).at? l = (env.tree w).at? l

/-- Putting a directory back leaves some locations alone. -/
def RevertsAloof (env : Surroundings σ) (ls : List Location) : Prop :=
  ∀ directory w, ∀ l ∈ ls, (env.tree (env.revert directory w).2).at? l = (env.tree w).at? l

/-- Surroundings in which nothing happens but that the files change in a given way during each sleep. The
sleeps are counted. -/
def Surroundings.sleeping (meanwhile : FileTree → FileTree) : Surroundings (FileTree × Nat) where
  tree := Prod.fst
  setTree t w := (t, w.2)
  tail _ w := (.lines [], w)
  now _ := 0
  sleep _ w := (meanwhile w.1, w.2 + 1)
  isCancelled w := (false, w)
  revert _ w := (.done, w)

/-- There, a dealing changes nothing, or it is a sleep, or it is a write or a removal, which no time
passes with. -/
theorem leads_sleeping {meanwhile : FileTree → FileTree} {u u' : FileTree × Nat}
    (h : d.Leads (Surroundings.sleeping meanwhile) u u') :
    u' = u ∨ u' = (meanwhile u.1, u.2 + 1) ∨ ¬ d.IsWaiting ∧ ¬ d.IsReversion ∧ u'.2 = u.2 := by
  cases d with
  | wrote path content written =>
    obtain rfl : ((Surroundings.sleeping meanwhile).writeFile path content u).2 = u' :=
      congrArg Prod.snd h
    exact .inr (.inr ⟨id, id, rfl⟩)
  | removed path removal =>
    have hremove : (Surroundings.sleeping meanwhile).remove path u = (removal, u') := h
    rw [Surroundings.remove] at hremove
    split at hremove <;> cases hremove <;> exact .inr (.inr ⟨id, id, rfl⟩)
  | slept ms => exact .inr (.inl h.symm)
  | readLog | asked | reverted => exact .inl (congrArg Prod.snd h).symm

/-- If all that happens is that something appears at one location, the others are left alone. -/
theorem aloof_sleeping_put {output : Location} {n : Node} {ls : List Location} (hout : output ≠ [])
    (hls : output ∉ ls) : Aloof (Surroundings.sleeping fun t => t.put output n) ls where
  tail _ _ := ⟨rfl, fun _ _ => rfl⟩
  sleep _ w := by
    refine ⟨rfl, fun l hl => (FileTree.at?_put w.1 n l hout).trans (if_neg ?_)⟩
    rintro rfl
    exact hls hl
  isCancelled _ := ⟨rfl, fun _ _ => rfl⟩

/-- At a location of the world is what is there in a tree, and paths lead where they lead in that tree. -/
def Stands (env : Surroundings σ) (t : FileTree) (l : Location) (w : σ) : Prop :=
  (env.tree w).home = t.home ∧ (env.tree w).at? l = t.at? l

theorem tree_writeFile (path content : Text) (w : σ) :
    env.tree (env.writeFile path content w).2 = ((env.tree w).writeFile path content).2 :=
  env.tree_setTree _ _

/-- What has been written is there, and there was no directory in its place. -/
theorem at?_of_wrote {path content : Text}
    (h : (Dealing.wrote path content (.ok ())).Leads env w w') :
    (env.tree w).at? ((env.tree w).place path) ≠ some .directory ∧
      ∃ x, (env.tree w').at? ((env.tree w).place path) = some (.file content x) := by
  have hw : w' = (env.writeFile path content w).2 := (congrArg Prod.snd h).symm
  have hok : (env.writeFile path content w).1 = .ok () := congrArg Prod.fst h
  rw [hw, tree_writeFile]
  exact FileTree.at?_of_writeFile_ok (Prod.ext hok rfl)

/-- Removing in a world is removing in its tree. -/
theorem remove_leads {path : Text} {result : Except FileError Unit}
    (h : env.remove path w = (result, w')) :
    (result = .ok () ∧ (env.tree w).remove path = .ok (env.tree w')) ∨
      ∃ e, result = .error e ∧ env.tree w' = env.tree w := by
  rw [Surroundings.remove] at h
  split at h
  · next t ht =>
    cases h
    exact .inl ⟨rfl, by rw [env.tree_setTree, ht]⟩
  · next e _ =>
    cases h
    exact .inr ⟨e, rfl, rfl⟩

/-- A write or a removal leaves relative paths where they start. -/
theorem home_of_leads (hwait : ¬ d.IsWaiting) (hrev : ¬ d.IsReversion) (h : d.Leads env w w') :
    (env.tree w').home = (env.tree w).home := by
  cases d with
  | wrote path content result =>
    have hw : w' = (env.writeFile path content w).2 := (congrArg Prod.snd h).symm
    rw [hw, tree_writeFile, FileTree.writeFile_home]
  | removed path result =>
    rcases remove_leads h with ⟨-, ht⟩ | ⟨e, -, ht⟩
    · exact (FileTree.within_of_remove ht).1
    · rw [ht]
  | readLog | slept | asked => exact absurd trivial hwait
  | reverted => exact absurd trivial hrev

/-- **A write or a removal changes what it touches and makes directories on the way**, and nothing else. -/
theorem kept_of_leads (hwait : ¬ d.IsWaiting) (hrev : ¬ d.IsReversion) (h : d.Leads env w w')
    {m : Location} (hm : ¬ d.Touches (env.tree w) m) :
    FileTree.Kept (d.makes (env.tree w)) (env.tree w) (env.tree w') m := by
  cases d with
  | wrote path content result =>
    have hw : w' = (env.writeFile path content w).2 := (congrArg Prod.snd h).symm
    rw [hw, tree_writeFile]
    cases result with
    | ok u =>
      exact FileTree.kept_writeFile content (fun he => hm (.inl he)) (fun he => hm (.inr he))
    | error e =>
      have herror : (env.tree w).writeFile path content =
          (.error e, ((env.tree w).writeFile path content).2) :=
        Prod.ext (congrArg Prod.fst h : (env.writeFile path content w).1 = _) rfl
      exact FileTree.kept_writeFile_of_error herror hm
  | removed path result =>
    rcases remove_leads h with ⟨-, ht⟩ | ⟨e, -, ht⟩
    · exact .inl (FileTree.remove_at? ht hm)
    · exact .inl (by rw [ht])
  | readLog | slept | asked => exact absurd trivial hwait
  | reverted => exact absurd trivial hrev

theorem touches_congr {t t' : FileTree} (h : t'.home = t.home) {l : Location} :
    d.Touches t' l ↔ d.Touches t l := by
  cases d with
  | wrote path content result => cases result <;> simp only [Dealing.Touches, FileTree.place_congr h]
  | _ => simp only [Dealing.Touches, FileTree.place_congr h]

/-- While the verification waits, what the surroundings leave alone stays. -/
theorem Stands.wait {ls : List Location} {t : FileTree} {l : Location} (aloof : Aloof env ls)
    (hl : l ∈ ls) (hd : d.IsWaiting) (h : d.Leads env w w') (hw : Stands env t l w) :
    Stands env t l w' := by
  have keep : ∀ {v : σ}, ((env.tree v).home = (env.tree w).home ∧
      ∀ l ∈ ls, (env.tree v).at? l = (env.tree w).at? l) → Stands env t l v :=
    fun hv => ⟨hv.1.trans hw.1, (hv.2 l hl).trans hw.2⟩
  cases d with
  | readLog n reading =>
    obtain rfl : (env.tail n w).2 = w' := congrArg Prod.snd h
    exact keep (aloof.tail n w)
  | slept ms =>
    obtain rfl : env.sleep ms w = w' := h
    exact keep (aloof.sleep ms w)
  | asked cancelled =>
    obtain rfl : (env.isCancelled w).2 = w' := congrArg Prod.snd h
    exact keep (aloof.isCancelled w)
  | wrote | removed | reverted => exact absurd hd id

/-- **What is there stays there** until it is touched or the watched directory is put back. -/
theorem Stands.step {ls : List Location} {t : FileTree} {l : Location} (aloof : Aloof env ls)
    (hl : l ∈ ls) (there : t.at? l ≠ none) (hrev : ¬ d.IsReversion) (hd : ¬ d.Touches t l)
    (h : d.Leads env w w') (hw : Stands env t l w) : Stands env t l w' := by
  by_cases hwait : d.IsWaiting
  · exact hw.wait aloof hl hwait h
  · have hkept := kept_of_leads hwait hrev h (mt (touches_congr hw.1).1 hd)
    exact ⟨(home_of_leads hwait hrev h).trans hw.1, (hkept.at?_eq (hw.2 ▸ there)).trans hw.2⟩

/-- What is there stays there as long as no dealing touches it. -/
theorem Dealings.stands {ls : List Location} {t : FileTree} {l : Location} (aloof : Aloof env ls)
    (hl : l ∈ ls) (there : t.at? l ≠ none) (hds : ∀ d ∈ ds, ¬ d.IsReversion ∧ ¬ d.Touches t l)
    (h : Dealings env w ds w') (hw : Stands env t l w) : Stands env t l w' :=
  h.keeps (fun d hd _ _ => Stands.step aloof hl there (hds d hd).1 (hds d hd).2) hw

/-! ## What is gone -/

/-- The tree has no more after a removal than before it. -/
theorem within_of_leads (hpath : d.removedPath?.isSome) (h : d.Leads env w w') :
    FileTree.Within (env.tree w') (env.tree w) := by
  cases d with
  | removed path result =>
    rcases remove_leads h with ⟨-, ht⟩ | ⟨e, -, ht⟩
    · exact FileTree.within_of_remove ht
    · exact ht ▸ .refl _
  | _ => cases hpath

/-- **Paths that have all been removed are gone**: later removals bring none of them back. -/
theorem not_present_of_removals {paths : List Text} (h : Dealings env w ds w')
    (hpaths : ds.map Dealing.removedPath? = paths.map some)
    (hall : ds.all Dealing.succeeds = true) : ∀ p ∈ paths, (env.tree w').present p = false := by
  induction h generalizing paths with
  | nil =>
    cases paths with
    | nil => simp
    | cons p paths => cases hpaths
  | @cons w₀ w₁ w₂ d ds first others ih =>
    cases paths with
    | nil => cases hpaths
    | cons p paths =>
      rw [List.map_cons, List.map_cons, List.cons.injEq] at hpaths
      rw [List.all_cons, Bool.and_eq_true] at hall
      -- what is gone after the first removal is still gone after the others
      have hwithin : FileTree.Within (env.tree w₂) (env.tree w₁) := by
        refine others.keeps (P := fun u => FileTree.Within (env.tree u) (env.tree w₁))
          (fun d' hd' u u' hlead hu => (within_of_leads ?_ hlead).trans hu) (.refl _)
        have hmem : d'.removedPath? ∈ paths.map some := hpaths.2 ▸ List.mem_map_of_mem hd'
        obtain ⟨q, -, hq⟩ := List.mem_map.1 hmem
        rw [← hq, Option.isSome_some]
      intro q hq
      rcases List.mem_cons.1 hq with rfl | hq
      · cases d with
        | removed path result =>
          cases hpaths.1
          rcases remove_leads first with ⟨-, ht⟩ | ⟨e, rfl, -⟩
          · exact hwithin.not_present (FileTree.not_present_of_remove ht)
          · simp [Dealing.succeeds] at hall
        | _ => cases hpaths.1
      · exact ih hpaths.2 hall.2 q hq

end Flatsheet.Repair
