import Mathlib.Data.List.Sort

/-!
# Finite maps as sorted lists

A type whose values hold maps of values of the same type, such as a JSON value with its
objects, cannot be defined with maps that are quotients or carry proofs. Here a map is the
list of its entries with strictly increasing keys (`Rivloom.SortedMap.Sorted`), which is a
list like any other inside an inductive type and still has one form only: two sorted lists
that answer every question alike are equal (`Rivloom.SortedMap.ext`).

The operations are total on all lists, and what they answer needs no order of the keys.
-/

namespace Rivloom.SortedMap

variable {κ α : Type} [LinearOrder κ] {m m' : List (κ × α)} {k k' : κ} {a a' : α} {entry : κ × α}

/-- **The keys increase.** -/
def Sorted (m : List (κ × α)) : Prop := m.Pairwise fun entry entry' => entry.1 < entry'.1

/-- Give a key a value. -/
def insert (k : κ) (a : α) : List (κ × α) → List (κ × α)
  | [] => [(k, a)]
  | entry :: m =>
    if k < entry.1 then (k, a) :: entry :: m
    else if k = entry.1 then (k, a) :: m
    else entry :: insert k a m

/-- Take a key out. -/
def erase (k : κ) (m : List (κ × α)) : List (κ × α) := m.filter fun entry => entry.1 ≠ k

/-! ### What a map answers -/

theorem lookup_cons (k : κ) (entry : κ × α) (m : List (κ × α)) :
    (entry :: m).lookup k = if k = entry.1 then some entry.2 else m.lookup k := by
  rw [List.lookup_cons]
  by_cases h : k = entry.1
  · rw [if_pos h, beq_iff_eq.mpr h]
  · rw [if_neg h, beq_false_of_ne h]

theorem lookup_insert (k : κ) (a : α) (m : List (κ × α)) (k' : κ) :
    (insert k a m).lookup k' = if k' = k then some a else m.lookup k' := by
  induction m with
  | nil => exact lookup_cons k' (k, a) []
  | cons entry m ih =>
    rw [insert]
    split
    · exact lookup_cons k' (k, a) _
    · split
      · next hk =>
        rw [lookup_cons, lookup_cons, ← hk]
        split
        · rfl
        · rfl
      · next hk =>
        rw [lookup_cons, ih, lookup_cons]
        by_cases hentry : k' = entry.1
        · rw [if_pos hentry, if_pos hentry, if_neg fun h => hk (h.symm.trans hentry)]
        · rw [if_neg hentry, if_neg hentry]

theorem lookup_erase (k : κ) (m : List (κ × α)) (k' : κ) :
    (erase k m).lookup k' = if k' = k then none else m.lookup k' := by
  induction m with
  | nil =>
    split
    · rfl
    · rfl
  | cons entry m ih =>
    rw [erase, List.filter_cons]
    split
    · next hentry =>
      rw [decide_eq_true_eq] at hentry
      rw [lookup_cons, lookup_cons, ← erase, ih]
      by_cases h : k' = entry.1
      · rw [if_pos h, if_pos h, if_neg fun hk => hentry (h.symm.trans hk)]
      · rw [if_neg h, if_neg h]
    · next hentry =>
      rw [decide_eq_true_eq, not_not] at hentry
      rw [← erase, ih, lookup_cons, hentry]
      split
      · rfl
      · rfl

theorem mem_of_lookup (h : m.lookup k = some a) : (k, a) ∈ m := by
  obtain ⟨front, rest, rfl, -⟩ := List.lookup_eq_some_iff.mp h
  exact List.mem_append_right _ List.mem_cons_self

theorem Sorted.lookup_of_mem (h : Sorted m) (hmem : (k, a) ∈ m) : m.lookup k = some a := by
  induction m with
  | nil => cases hmem
  | cons entry m ih =>
    obtain ⟨hlt, hrest⟩ := List.pairwise_cons.mp h
    rw [lookup_cons]
    rcases List.mem_cons.mp hmem with rfl | hmem
    · rw [if_pos rfl]
    · rw [if_neg (hlt _ hmem).ne', ih hrest hmem]

theorem Sorted.mem_iff (h : Sorted m) : (k, a) ∈ m ↔ m.lookup k = some a :=
  ⟨h.lookup_of_mem, mem_of_lookup⟩

/-- The key of the first entry is not among the others. -/
theorem Sorted.lookup_rest (h : Sorted (entry :: m)) : m.lookup entry.1 = none := by
  obtain ⟨hlt, -⟩ := List.pairwise_cons.mp h
  cases hm : m.lookup entry.1 with
  | none => rfl
  | some a => exact absurd (hlt _ (mem_of_lookup hm)) (lt_irrefl _)

theorem Sorted.rest (h : Sorted (entry :: m)) : Sorted m :=
  (List.pairwise_cons.mp h).2

/-- **A map is what it answers.** -/
theorem ext (h : Sorted m) (h' : Sorted m') (heq : ∀ k, m.lookup k = m'.lookup k) : m = m' := by
  have hantisymm : Std.Antisymm fun entry entry' : κ × α => entry.1 < entry'.1 :=
    ⟨fun _ _ hlt hgt => absurd hlt hgt.asymm⟩
  have hirrefl : Std.Irrefl fun entry entry' : κ × α => entry.1 < entry'.1 :=
    ⟨fun entry => lt_irrefl entry.1⟩
  refine h.eq_of_mem_iff h' ?_
  rintro ⟨k, a⟩
  rw [h.mem_iff, h'.mem_iff, heq]

/-! ### What the operations keep -/

theorem mem_insert (h : entry ∈ insert k a m) : entry = (k, a) ∨ entry ∈ m := by
  induction m with
  | nil => exact Or.inl (List.mem_singleton.mp h)
  | cons first m ih =>
    rw [insert] at h
    split at h
    · exact List.mem_cons.mp h
    · split at h
      · rcases List.mem_cons.mp h with h | h
        · exact Or.inl h
        · exact Or.inr (List.mem_cons_of_mem _ h)
      · rcases List.mem_cons.mp h with rfl | h
        · exact Or.inr List.mem_cons_self
        · exact (ih h).imp_right (List.mem_cons_of_mem _)

theorem Sorted.insert (h : Sorted m) (k : κ) (a : α) : Sorted (insert k a m) := by
  induction m with
  | nil => exact List.pairwise_singleton _ _
  | cons entry m ih =>
    obtain ⟨hlt, hrest⟩ := List.pairwise_cons.mp h
    rw [SortedMap.insert]
    split
    · next hk =>
      refine List.pairwise_cons.mpr ⟨?_, h⟩
      intro entry' hmem
      rcases List.mem_cons.mp hmem with rfl | hmem
      · exact hk
      · exact hk.trans (hlt _ hmem)
    · next hk =>
      split
      · next heq => exact List.pairwise_cons.mpr ⟨fun entry' hmem => heq ▸ hlt _ hmem, hrest⟩
      · next hne =>
        refine List.pairwise_cons.mpr ⟨?_, ih hrest⟩
        intro entry' hmem
        rcases mem_insert hmem with rfl | hmem
        · exact lt_of_le_of_ne (not_lt.mp hk) (Ne.symm hne)
        · exact hlt _ hmem

theorem Sorted.erase (h : Sorted m) (k : κ) : Sorted (erase k m) :=
  List.Pairwise.filter _ h

theorem mem_erase (h : entry ∈ erase k m) : entry ∈ m := List.mem_of_mem_filter h

end Rivloom.SortedMap
