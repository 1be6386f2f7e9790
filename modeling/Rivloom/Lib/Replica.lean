import Rivloom.Lib.StrMap

/-!
# Incremental replicas

A collection of records, each with a key and with the revision of its last change, is
copied to a replica, and later brought up to date by sending only the records whose
revision is above the one the replica knows. The collection is a list in which no two
records have the same key (`Rivloom.Replica.UniqueKeys`); the copy is the map of its
records by their keys (`Rivloom.Replica.ofList`), and bringing it up to date lays the
changed records over it (`Rivloom.Replica.overlay`).

`Rivloom.Replica.overlay_changes` is the one fact this rests on: it is enough that a
record whose revision did not grow did not change, and that no key disappears.
-/

namespace Rivloom.Replica

variable {α : Type} (key : α → String) {l : List α} {m : StrMap α} {k : String} {r : α}

/-- Lay records over a map, each under its key. -/
def overlay (m : StrMap α) (l : List α) : StrMap α := l.foldl (fun m r => m.insert (key r) r) m

/-- The map of records by their keys. -/
def ofList (l : List α) : StrMap α := overlay key ∅ l

/-- No two records have the same key. -/
def UniqueKeys (l : List α) : Prop := ∀ r ∈ l, ∀ r' ∈ l, key r = key r' → r = r'

variable {key}

@[simp] theorem overlay_nil (m : StrMap α) : overlay key m [] = m := rfl

@[simp] theorem overlay_cons (m : StrMap α) (r : α) (l : List α) :
    overlay key m (r :: l) = overlay key (m.insert (key r) r) l := rfl

@[simp] theorem overlay_append (m : StrMap α) (l l' : List α) :
    overlay key m (l ++ l') = overlay key (overlay key m l) l' := by
  rw [overlay, List.foldl_append]
  rfl

theorem UniqueKeys.filter (h : UniqueKeys key l) (p : α → Bool) :
    UniqueKeys key (l.filter p) := fun r hr r' hr' =>
  h r (List.mem_filter.mp hr).1 r' (List.mem_filter.mp hr').1

/-- A key that no record has is as it was. -/
theorem getElem?_overlay_of_not_mem (h : ∀ r ∈ l, key r ≠ k) : (overlay key m l)[k]? = m[k]? := by
  induction l generalizing m with
  | nil => rfl
  | cons r l ih =>
    rw [overlay_cons, ih fun r' hr' => h r' (List.mem_cons_of_mem _ hr'), StrMap.getElem?_insert,
      if_neg (h r List.mem_cons_self)]

/-- What comes later in a list of distinct keys has another key than what came before. -/
theorem key_ne_of_mem_take (hl : (l.map key).Nodup) {i : ℕ} {r r' : α} (hr : r ∈ l.take i)
    (hr' : r' ∈ l.drop i) : key r ≠ key r' := by
  rw [← List.take_append_drop i l, List.map_append, List.nodup_append] at hl
  exact hl.2.2 _ (List.mem_map_of_mem hr) _ (List.mem_map_of_mem hr')

/-- What the map holds was laid over it or was there before. -/
theorem mem_or_of_getElem?_overlay (h : (overlay key m l)[k]? = some r) :
    (r ∈ l ∧ key r = k) ∨ m[k]? = some r := by
  induction l generalizing m with
  | nil => exact Or.inr h
  | cons r' l ih =>
    rcases ih h with ⟨hr, hkey⟩ | h'
    · exact Or.inl ⟨List.mem_cons_of_mem _ hr, hkey⟩
    · rw [StrMap.getElem?_insert] at h'
      split at h'
      · next hkey =>
        obtain rfl := Option.some.inj h'
        exact Or.inl ⟨List.mem_cons_self, hkey⟩
      · exact Or.inr h'

/-- The key of a record holds the record. -/
theorem getElem?_overlay_of_mem (hl : UniqueKeys key l) (hr : r ∈ l) :
    (overlay key m l)[key r]? = some r := by
  induction l generalizing m with
  | nil => cases hr
  | cons r' l ih =>
    have htail : UniqueKeys key l := fun a ha b hb =>
      hl a (List.mem_cons_of_mem _ ha) b (List.mem_cons_of_mem _ hb)
    rw [overlay_cons]
    by_cases hmem : r ∈ l
    · exact ih htail hmem
    · -- the record is the first one, and no later one has its key
      obtain rfl : r = r' := (List.mem_cons.mp hr).resolve_right hmem
      rw [getElem?_overlay_of_not_mem, StrMap.getElem?_insert, if_pos rfl]
      intro b hb hkey
      rw [hl r List.mem_cons_self b (List.mem_cons_of_mem _ hb) hkey.symm] at hmem
      exact hmem hb

/-- What the map of records by their keys holds. -/
theorem getElem?_ofList (hl : UniqueKeys key l) :
    (ofList key l)[k]? = some r ↔ r ∈ l ∧ key r = k := by
  constructor
  · intro h
    by_cases hex : ∃ r' ∈ l, key r' = k
    · obtain ⟨r', hr', rfl⟩ := hex
      rw [ofList, getElem?_overlay_of_mem hl hr'] at h
      obtain rfl := Option.some.inj h
      exact ⟨hr', rfl⟩
    · rw [ofList, getElem?_overlay_of_not_mem fun r' hr' heq => hex ⟨r', hr', heq⟩] at h
      simp at h
  · rintro ⟨hr, rfl⟩
    exact getElem?_overlay_of_mem hl hr

/-- **Sending what changed is enough**: where a record whose revision is not above the
known one was there before, and no key has disappeared, laying the newer records over the
old copy gives the new copy. -/
theorem overlay_changes {revision : α → ℕ} {old new : List α} {after : ℕ}
    (hold : UniqueKeys key old) (hnew : UniqueKeys key new)
    (hkeep : ∀ r ∈ new, revision r ≤ after → r ∈ old)
    (hkeys : ∀ r ∈ old, ∃ r' ∈ new, key r' = key r) :
    overlay key (ofList key old) (new.filter fun r => after < revision r) = ofList key new := by
  apply Std.ExtTreeMap.ext_getElem?
  intro k
  by_cases hex : ∃ r ∈ new, key r = k
  · obtain ⟨r, hr, rfl⟩ := hex
    rw [(getElem?_ofList hnew).mpr ⟨hr, rfl⟩]
    by_cases hrev : after < revision r
    · exact getElem?_overlay_of_mem (hnew.filter _)
        (List.mem_filter.mpr ⟨hr, decide_eq_true hrev⟩)
    · rw [getElem?_overlay_of_not_mem, (getElem?_ofList hold).mpr ⟨hkeep r hr (by omega), rfl⟩]
      intro r' hr' hkey
      obtain ⟨hmem, hrev'⟩ := List.mem_filter.mp hr'
      obtain rfl := hnew r' hmem r hr hkey
      exact hrev (of_decide_eq_true hrev')
  · have hnone : (ofList key new)[k]? = none := by
      rw [Option.eq_none_iff_forall_ne_some]
      exact fun r hr => hex ⟨r, (getElem?_ofList hnew).mp hr⟩
    rw [hnone, getElem?_overlay_of_not_mem fun r hr hkey =>
      hex ⟨r, (List.mem_filter.mp hr).1, hkey⟩,
      Option.eq_none_iff_forall_ne_some]
    intro r hr
    obtain ⟨hmem, hkey⟩ := (getElem?_ofList hold).mp hr
    obtain ⟨r', hr', hkey'⟩ := hkeys r hmem
    exact hex ⟨r', hr', hkey'.trans hkey⟩

end Rivloom.Replica
