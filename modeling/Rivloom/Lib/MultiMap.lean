import Mathlib.Tactic.Common

/-!
# Maps with several values to a key

A map that keeps, for each key, the values that were inserted there, in the order of
their insertion. It is given by all insertions in order; what it holds for a key is
the insertions of that key. The hash order in which the keys themselves are visited is
left open by the library, and no result here depends on it: merging one map into
another (`Rivloom.MultiMap.extend`) puts, at each key, the new values behind the old.
-/

namespace Rivloom

/-- **A map with several values to a key.** -/
structure MultiMap (κ α : Type) where
  entries : List (κ × α)

namespace MultiMap

variable {κ α : Type} [DecidableEq κ] (map other : MultiMap κ α)

def empty : MultiMap κ α := ⟨[]⟩

def insert (map : MultiMap κ α) (key : κ) (value : α) : MultiMap κ α :=
  ⟨map.entries ++ [(key, value)]⟩

/-- The values of a key; none if there are none. -/
def getVec (map : MultiMap κ α) (key : κ) : List α :=
  map.entries.filterMap fun entry => if entry.1 = key then some entry.2 else none

/-- Every insertion of another map, one by one. -/
def extend (map other : MultiMap κ α) : MultiMap κ α :=
  other.entries.foldl (fun map entry => map.insert entry.1 entry.2) map

/-- The entries that satisfy a condition. -/
def filter (map : MultiMap κ α) (keep : κ → α → Bool) : MultiMap κ α :=
  ⟨map.entries.filter fun entry => keep entry.1 entry.2⟩

omit [DecidableEq κ] in
theorem entries_extend : (map.extend other).entries = map.entries ++ other.entries := by
  obtain ⟨more⟩ := other
  unfold extend
  induction more generalizing map with
  | nil => simp
  | cons entry rest ih =>
    rw [List.foldl_cons, ih]
    simp [insert]

/-- **Merging, key by key**: the values of the other map come behind. -/
@[simp] theorem getVec_extend (key : κ) :
    (map.extend other).getVec key = map.getVec key ++ other.getVec key := by
  rw [getVec, entries_extend, List.filterMap_append]
  rfl

theorem mem_getVec {map : MultiMap κ α} {key : κ} {value : α} :
    value ∈ map.getVec key ↔ (key, value) ∈ map.entries := by
  simp only [getVec, List.mem_filterMap, Option.ite_none_right_eq_some, Option.some.injEq,
    Prod.exists]
  constructor
  · rintro ⟨k, v, hmem, rfl, rfl⟩
    exact hmem
  · intro hmem
    exact ⟨key, value, hmem, rfl, rfl⟩

/-- Filtering by the values filters the values of each key. -/
theorem getVec_filter (map : MultiMap κ α) (keep : α → Bool) (key : κ) :
    (map.filter fun _ value => keep value).getVec key = (map.getVec key).filter keep := by
  obtain ⟨entries⟩ := map
  unfold getVec filter
  dsimp only
  induction entries with
  | nil => rfl
  | cons entry rest ih =>
    by_cases hkey : entry.1 = key <;> cases hkeep : keep entry.2 <;>
      simp [hkey, hkeep, ih]

end MultiMap

end Rivloom
