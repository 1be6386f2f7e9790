import Mathlib.Logic.Function.Basic
import Mathlib.Logic.ExistsUnique

/-!
# Net changes

Someone who wants to say what a run of writes has changed, and sees only the writes, keeps two
partial maps: what a key held when it was first written, its **baseline**, and what it holds
**now**. A key that was never written is in neither; a key that did not exist and does not exist any
more need not be. `Rivloom.NetChange.Tracks` says that the two maps are right, and the one rule
about it is that a write keeps it if the baseline is captured in front of the write
(`Rivloom.NetChange.Tracks.write`).

What has changed is shown by pairs of keys, one for the old and one for the new value. Mostly the
two are the same key; but a key that is gone may be shown together with one that is new, as a
renaming. Whatever renaming is taken, every key is in exactly one pair
(`Rivloom.NetChange.existsUnique_shown`), and a pair that differs is made of keys that have changed
(`Rivloom.NetChange.Tracks.changed_of_shown`).
-/

namespace Rivloom.NetChange

open Function (update update_of_ne update_self)

variable {K V : Type} {k : K}

/-- **The baseline and the present are right**: every key is followed, or it is in neither map and
holds what it held. -/
def Tracks (first now base current : K → Option V) : Prop :=
  ∀ k, base k = first k ∧ current k = now k ∨ base k = none ∧ current k = none ∧ first k = now k

theorem Tracks.refl (first : K → Option V) : Tracks first first (fun _ => none) fun _ => none :=
  fun _ => Or.inr ⟨rfl, rfl, rfl⟩

section Write

variable [DecidableEq K]

/-- The baseline with what a key holds, if the key is in neither map. -/
def capture (base current : K → Option V) (k : K) (held : Option V) : K → Option V :=
  if (current k).isNone ∧ (base k).isNone then update base k held else base

theorem capture_of_ne {base current : K → Option V} {k j : K} {held : Option V} (h : j ≠ k) :
    capture base current k held j = base j := by
  rw [capture]
  split
  · exact update_of_ne h held base
  · rfl

theorem capture_self (base current : K → Option V) (k : K) (held : Option V) :
    capture base current k held k =
      if (current k).isNone ∧ (base k).isNone then held else base k := by
  rw [capture]
  split
  · exact update_self k held base
  · rfl

variable {first now base current : K → Option V}

/-- What is captured is what the key held first. -/
theorem Tracks.capture_eq (h : Tracks first now base current) (k : K) :
    capture base current k (now k) k = first k := by
  rw [capture_self]
  split
  · next hnone =>
    rcases h k with ⟨hbase, hcurrent⟩ | ⟨-, -, hsame⟩
    · rw [← hbase, ← hcurrent, Option.isNone_iff_eq_none.mp hnone.1,
        Option.isNone_iff_eq_none.mp hnone.2]
    · exact hsame.symm
  · next hsome =>
    rcases h k with ⟨hbase, -⟩ | ⟨hbase, hcurrent, -⟩
    · exact hbase
    · rw [hbase, hcurrent] at hsome
      exact absurd ⟨rfl, rfl⟩ hsome

/-- **A write**, with the baseline captured in front of it. -/
theorem Tracks.write (h : Tracks first now base current) (k : K) (v : Option V) :
    Tracks first (update now k v) (capture base current k (now k))
      (update current k v) := by
  intro j
  by_cases hj : j = k
  · subst hj
    rw [update_self, update_self]
    exact Or.inl ⟨h.capture_eq j, rfl⟩
  · rw [update_of_ne hj, update_of_ne hj, capture_of_ne hj]
    exact h j

/-- **A move**: a key is emptied and another one written, with both baselines captured in front. The
two may be the same. -/
theorem Tracks.move (h : Tracks first now base current) (source dest : K) (v : Option V) :
    Tracks first (update (update now source none) dest v)
      (capture (capture base current source (now source)) current dest (now dest))
      (update (update current source none) dest v) := by
  intro j
  by_cases hdest : j = dest
  · subst hdest
    rw [update_self, update_self]
    refine Or.inl ⟨?_, rfl⟩
    by_cases hsource : j = source
    · -- what is captured once is not captured again
      subst hsource
      rw [capture_self, h.capture_eq]
      split
      · next hnone =>
        rw [← h.capture_eq j, capture_self, if_pos]
        refine ⟨hnone.1, ?_⟩
        rcases h j with ⟨hbase, -⟩ | ⟨hbase, -⟩
        · rw [hbase]
          exact hnone.2
        · rw [hbase]
          rfl
      · rfl
    · rw [capture_self, capture_of_ne hsource, ← capture_self]
      exact h.capture_eq j
  · rw [update_of_ne hdest, update_of_ne hdest, capture_of_ne hdest]
    by_cases hsource : j = source
    · subst hsource
      rw [update_self, update_self]
      exact Or.inl ⟨h.capture_eq j, rfl⟩
    · rw [update_of_ne hsource, update_of_ne hsource, capture_of_ne hsource]
      exact h j

end Write

/-! ### Pairs of keys -/

/-- **A renaming** takes keys that are gone to keys that are new, and no two to the same. -/
structure Renaming (base current : K → Option V) (rename : K → Option K) : Prop where
  gone : ∀ {o d}, rename o = some d → base o ≠ none ∧ current o = none
  new : ∀ {o d}, rename o = some d → base d = none ∧ current d ≠ none
  inj : ∀ {o o' d}, rename o = some d → rename o' = some d → o = o'

/-- The pairs that are shown: a key that is not the destination of another, with its own. -/
def Shown (rename : K → Option K) (left right : K) : Prop :=
  (∀ o, rename o ≠ some left) ∧ right = (rename left).getD left

variable {first now base current : K → Option V} {rename : K → Option K}

/-- **Every key is in exactly one pair.** -/
theorem existsUnique_shown (h : Renaming base current rename) (k : K) :
    ∃! pair : K × K, Shown rename pair.1 pair.2 ∧ (pair.1 = k ∨ pair.2 = k) := by
  by_cases hdest : ∃ o, rename o = some k
  · obtain ⟨o, ho⟩ := hdest
    refine ⟨(o, k), ⟨⟨fun o' ho' => (h.new ho').2 (h.gone ho).2, ?_⟩, Or.inr rfl⟩, ?_⟩
    · rw [ho]
      rfl
    · rintro ⟨left, right⟩ ⟨⟨hleft, hright⟩, rfl | rfl⟩
      · exact absurd ho (hleft o)
      · cases hrename : rename left with
        | none =>
          rw [hrename] at hright
          obtain rfl : right = left := hright
          exact absurd ho (hleft o)
        | some d =>
          rw [hrename] at hright
          obtain rfl : right = d := hright
          rw [h.inj hrename ho]
  · have hfree : ∀ o, rename o ≠ some k := fun o ho => hdest ⟨o, ho⟩
    refine ⟨(k, (rename k).getD k), ⟨⟨hfree, rfl⟩, Or.inl rfl⟩, ?_⟩
    rintro ⟨left, right⟩ ⟨⟨-, hright⟩, rfl | rfl⟩
    · exact Prod.ext rfl hright
    · cases hrename : rename left with
      | none =>
        rw [hrename] at hright
        obtain rfl : right = left := hright
        rw [hrename]
        rfl
      | some d =>
        rw [hrename] at hright
        obtain rfl : right = d := hright
        exact absurd hrename (hfree left)

theorem Tracks.base_eq (h : Tracks first now base current) (hbase : base k ≠ none) :
    base k = first k ∧ current k = now k :=
  (h k).resolve_right fun hnone => hbase hnone.1

theorem Tracks.current_eq (h : Tracks first now base current) (hcurrent : current k ≠ none) :
    base k = first k ∧ current k = now k :=
  (h k).resolve_right fun hnone => hcurrent hnone.2.1

theorem Tracks.of_changed (h : Tracks first now base current) (hchanged : first k ≠ now k) :
    base k = first k ∧ current k = now k :=
  (h k).resolve_right fun hnone => hchanged hnone.2.2

/-- **A renaming is one**: its first key held something and is gone, its second key is new. -/
theorem Tracks.of_rename (h : Tracks first now base current)
    (hr : Renaming base current rename) {o d : K} (hrename : rename o = some d) :
    (base o = first o ∧ current d = now d) ∧ now o = none ∧ first d = none := by
  obtain ⟨hbase, hgone⟩ := hr.gone hrename
  obtain ⟨hnone, hcurrent⟩ := hr.new hrename
  obtain ⟨hfirst, hnow⟩ := h.base_eq hbase
  obtain ⟨hfirst', hnow'⟩ := h.current_eq hcurrent
  exact ⟨⟨hfirst, hnow'⟩, hnow.symm.trans hgone, hfirst'.symm.trans hnone⟩

/-- **A pair that differs shows changes only**, with the old value on the left and the new one on
the right. -/
theorem Tracks.changed_of_shown (h : Tracks first now base current)
    (hr : Renaming base current rename)
    {left right : K} (hshown : Shown rename left right) (hdiffers : base left ≠ current right) :
    (base left = first left ∧ current right = now right) ∧
      first left ≠ now left ∧ first right ≠ now right := by
  obtain ⟨-, hright⟩ := hshown
  cases hrename : rename left with
  | some d =>
    rw [hrename] at hright
    obtain rfl : right = d := hright
    obtain ⟨⟨hfirst, hnow⟩, hgone, hnew⟩ := h.of_rename hr hrename
    refine ⟨⟨hfirst, hnow⟩, ?_, ?_⟩
    · rw [← hfirst, hgone]
      exact (hr.gone hrename).1
    · rw [← hnow, hnew]
      exact (hr.new hrename).2.symm
  | none =>
    rw [hrename] at hright
    obtain rfl : right = left := hright
    have htracked : base right = first right ∧ current right = now right := by
      refine (h right).resolve_right fun hnone => hdiffers ?_
      rw [hnone.1, hnone.2.1]
    refine ⟨htracked, ?_, ?_⟩
    · rw [← htracked.1, ← htracked.2]
      exact hdiffers
    · rw [← htracked.1, ← htracked.2]
      exact hdiffers

/-- **What has changed is shown**: the pair of a key that has changed differs, or it is a renaming
to the same value. -/
theorem Tracks.shown_of_changed (h : Tracks first now base current) {k left right : K}
    (hchanged : first k ≠ now k) (hshown : Shown rename left right) (hk : left = k ∨ right = k) :
    base left ≠ current right ∨ rename left = some right ∧ base left = current right := by
  obtain ⟨-, hright⟩ := hshown
  cases hrename : rename left with
  | some d =>
    rw [hrename] at hright
    obtain rfl : right = d := hright
    by_cases hsame : base left = current right
    · exact Or.inr ⟨rfl, hsame⟩
    · exact Or.inl hsame
  | none =>
    rw [hrename] at hright
    obtain rfl : right = left := hright
    obtain rfl : right = k := hk.elim id id
    obtain ⟨hbase, hcurrent⟩ := h.of_changed hchanged
    rw [hbase, hcurrent]
    exact Or.inl hchanged

end Rivloom.NetChange
