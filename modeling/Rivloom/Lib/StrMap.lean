import Mathlib.Tactic.Common
import Mathlib.Data.Finset.Card

/-!
# Maps from strings

An ordered map whose keys are strings, iterated in the order of their bytes. Two maps
with the same entries are equal, so a map is known by what it holds for each key.

Beside the operations of the standard library the code iterates over the values: it
asks whether any entry satisfies a condition (`Rivloom.StrMap.any`), checks every
entry (`Rivloom.StrMap.all`), and changes in place the values that satisfy a condition
(`Rivloom.StrMap.update`). Each comes with the lemma that says what it does key by key.
-/

namespace Rivloom

/-- Maps from strings. -/
abbrev StrMap (α : Type) : Type := Std.ExtTreeMap String α compare

namespace StrMap

variable {α β : Type} {m : StrMap α} {k : String} {p : String → α → Bool} {v : α} {m' : StrMap β}
  {f : α → α}

/-- Some entry satisfies the condition. -/
def any (m : StrMap α) (p : String → α → Bool) : Bool := m.toList.any fun e => p e.1 e.2

/-- Every entry satisfies the condition. -/
def all (m : StrMap α) (p : String → α → Bool) : Bool := m.toList.all fun e => p e.1 e.2

/-- Change the values that satisfy a condition. -/
def update (m : StrMap α) (p : α → Bool) (f : α → α) : StrMap α :=
  m.map fun _ v => if p v then f v else v

theorem mem_toList : (k, v) ∈ m.toList ↔ m[k]? = some v :=
  Std.ExtTreeMap.mem_toList_iff_getElem?_eq_some

theorem any_eq_true : m.any p = true ↔ ∃ (k : String) (v : α), m[k]? = some v ∧ p k v = true := by
  simp only [any, List.any_eq_true, Prod.exists, mem_toList]

theorem any_eq_false : m.any p = false ↔ ∀ (k : String) v, m[k]? = some v → p k v = false := by
  simp only [any, List.any_eq_false, Prod.forall, mem_toList, Bool.not_eq_true]

theorem all_eq_true : m.all p = true ↔ ∀ (k : String) v, m[k]? = some v → p k v = true := by
  simp only [all, List.all_eq_true, Prod.forall, mem_toList]

theorem getElem?_insert {k k' : String} :
    (m.insert k v)[k']? = if k = k' then some v else m[k']? := by
  simp only [Std.ExtTreeMap.getElem?_insert, Std.compare_eq_iff_eq]

theorem getElem?_erase {k k' : String} : (m.erase k)[k']? = if k = k' then none else m[k']? := by
  simp only [Std.ExtTreeMap.getElem?_erase, Std.compare_eq_iff_eq]

/-- The later of two values for a key stays. -/
theorem insert_insert {v w : α} : (m.insert k v).insert k w = m.insert k w := by
  apply Std.ExtTreeMap.ext_getElem?
  intro k'
  simp only [getElem?_insert]
  split <;> rfl

@[simp] theorem getElem?_update {p : α → Bool} :
    (m.update p f)[k]? = m[k]?.map fun v => if p v then f v else v := by
  simp [update]

@[simp] theorem size_update {p : α → Bool} : (m.update p f).size = m.size := by
  simp [update]

/-- A filter by values keeps what it holds of the kept keys. -/
theorem getElem?_filter : (m.filter p)[k]? = m[k]?.filter (p k) := by
  rw [Std.ExtTreeMap.getElem?_filter']

theorem contains_eq_true : m.contains k = true ↔ ∃ v, m[k]? = some v := by
  rw [Std.ExtTreeMap.contains_eq_isSome_getElem?, Option.isSome_iff_exists]

theorem contains_eq_false : m.contains k = false ↔ m[k]? = none := by
  rw [Std.ExtTreeMap.contains_eq_isSome_getElem?, Option.isSome_eq_false_iff,
    Option.isNone_iff_eq_none]

theorem size_insert_of_none (h : m[k]? = none) : (m.insert k v).size = m.size + 1 := by
  rw [Std.ExtTreeMap.size_insert, if_neg]
  rw [contains_eq_false.mpr h]
  exact Bool.false_ne_true

theorem size_insert_le : (m.insert k v).size ≤ m.size + 1 := Std.ExtTreeMap.size_insert_le

theorem size_insert_of_some {v w : α} (h : m[k]? = some w) : (m.insert k v).size = m.size := by
  rw [Std.ExtTreeMap.size_insert, if_pos]
  exact contains_eq_true.mpr ⟨w, h⟩

theorem size_erase_of_some (h : m[k]? = some v) : (m.erase k).size + 1 = m.size := by
  have hne : m.size ≠ 0 := by
    intro hzero
    rw [Std.ExtTreeMap.eq_empty_iff_size_eq_zero.mpr hzero] at h
    cases h
  rw [Std.ExtTreeMap.size_erase, if_pos (contains_eq_true.mpr ⟨v, h⟩)]
  omega

/-- Two maps with the same keys have the same size. -/
theorem size_eq_of_keys (h : ∀ k : String, m[k]?.isSome = m'[k]?.isSome) : m.size = m'.size := by
  have hkeys : m.keys.toFinset = m'.keys.toFinset := by
    ext k
    simp only [List.mem_toFinset, Std.ExtTreeMap.mem_keys, Std.ExtTreeMap.mem_iff_isSome_getElem?,
      h k]
  rw [← Std.ExtTreeMap.length_keys, ← Std.ExtTreeMap.length_keys,
    ← List.toFinset_card_of_nodup Std.ExtTreeMap.nodup_keys,
    ← List.toFinset_card_of_nodup Std.ExtTreeMap.nodup_keys, hkeys]

/-- A map that has all keys of another and is no larger has no other keys. -/
theorem exists_of_size_le (hsub : ∀ (k : String) v, m[k]? = some v → ∃ v', m'[k]? = some v')
    (hsize : m'.size ≤ m.size) {v' : β} (h : m'[k]? = some v') : ∃ v, m[k]? = some v := by
  have hsubset : m.keys.toFinset ⊆ m'.keys.toFinset := by
    intro k hk
    simp only [List.mem_toFinset, Std.ExtTreeMap.mem_keys, Std.ExtTreeMap.mem_iff_isSome_getElem?,
      Option.isSome_iff_exists] at hk ⊢
    obtain ⟨v, hv⟩ := hk
    exact hsub k v hv
  have heq : m.keys.toFinset = m'.keys.toFinset := by
    refine Finset.eq_of_subset_of_card_le hsubset ?_
    rw [List.toFinset_card_of_nodup Std.ExtTreeMap.nodup_keys, Std.ExtTreeMap.length_keys,
      List.toFinset_card_of_nodup Std.ExtTreeMap.nodup_keys, Std.ExtTreeMap.length_keys]
    exact hsize
  have hk : k ∈ m.keys.toFinset := by
    rw [heq, List.mem_toFinset, Std.ExtTreeMap.mem_keys, Std.ExtTreeMap.mem_iff_isSome_getElem?, h]
    rfl
  rw [List.mem_toFinset, Std.ExtTreeMap.mem_keys, Std.ExtTreeMap.mem_iff_isSome_getElem?] at hk
  exact Option.isSome_iff_exists.mp hk

/-- A map each of whose keys is named by an entry of another is no larger than it. -/
theorem size_le_of_named (name : String → β → String)
    (h : ∀ (k : String) v, m[k]? = some v →
      ∃ (k' : String) (v' : β), m'[k']? = some v' ∧ name k' v' = k) : m.size ≤ m'.size := by
  have hsub : m.keys.toFinset ⊆ (m'.toList.map fun e => name e.1 e.2).toFinset := by
    intro k hk
    rw [List.mem_toFinset, Std.ExtTreeMap.mem_keys, Std.ExtTreeMap.mem_iff_isSome_getElem?,
      Option.isSome_iff_exists] at hk
    obtain ⟨v, hv⟩ := hk
    obtain ⟨k', v', hv', hname⟩ := h k v hv
    exact List.mem_toFinset.mpr (List.mem_map.mpr ⟨(k', v'), mem_toList.mpr hv', hname⟩)
  calc m.size = m.keys.toFinset.card := by
        rw [List.toFinset_card_of_nodup Std.ExtTreeMap.nodup_keys, Std.ExtTreeMap.length_keys]
    _ ≤ (m'.toList.map fun e => name e.1 e.2).toFinset.card := Finset.card_le_card hsub
    _ ≤ (m'.toList.map fun e => name e.1 e.2).length := List.toFinset_card_le _
    _ = m'.size := by rw [List.length_map, Std.ExtTreeMap.length_toList]

end StrMap

end Rivloom
