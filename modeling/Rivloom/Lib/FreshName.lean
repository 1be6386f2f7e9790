import Mathlib.Data.List.Nodup
import Mathlib.Data.List.Perm.Subperm
import Mathlib.Data.Nat.Find
import Mathlib.Data.Set.Function

/-!
# The first name that is free

Names are tried one after the other until one is found that is not in use
(`Rivloom.FreshName.firstFree`). If the names that are tried are different, one more
attempt than there are names in use is enough (`Rivloom.FreshName.exists_firstFree`):
that many different names cannot all be in use.
-/

namespace Rivloom.FreshName

variable {α : Type} [DecidableEq α] {candidate : ℕ → α} {used : List α}

/-- **The first attempt that gives a name that is not in use.** -/
def firstFree (candidate : ℕ → α) (used : List α) : ℕ → ℕ → Option ℕ
  | 0, _ => none
  | fuel + 1, attempt =>
    if candidate attempt ∈ used then firstFree candidate used fuel (attempt + 1)
    else some attempt

theorem firstFree_eq_some {k : ℕ} (hfree : candidate k ∉ used) {attempt fuel : ℕ}
    (hle : attempt ≤ k) (hused : ∀ j, attempt ≤ j → j < k → candidate j ∈ used)
    (hfuel : k - attempt < fuel) : firstFree candidate used fuel attempt = some k := by
  induction fuel generalizing attempt with
  | zero => exact absurd hfuel (Nat.not_lt_zero _)
  | succ fuel ih =>
    rw [firstFree]
    by_cases hattempt : attempt = k
    · rw [hattempt, if_neg hfree]
    · rw [if_pos (hused attempt le_rfl (by omega))]
      exact ih (by omega) (fun j hj => hused j (by omega)) (by omega)

/-- More different names than there are in use are not all in use. -/
theorem exists_free (hinj : Set.InjOn candidate {k | k ≤ used.length}) :
    ∃ k ≤ used.length, candidate k ∉ used := by
  by_contra hall
  push Not at hall
  have hnodup : ((List.range (used.length + 1)).map candidate).Nodup := by
    refine List.Nodup.map_on (fun i hi j hj => ?_) List.nodup_range
    exact hinj (Nat.lt_succ_iff.mp (List.mem_range.mp hi))
      (Nat.lt_succ_iff.mp (List.mem_range.mp hj))
  have hsubset : (List.range (used.length + 1)).map candidate ⊆ used := by
    intro name hname
    obtain ⟨k, hk, rfl⟩ := List.mem_map.mp hname
    exact hall k (Nat.lt_succ_iff.mp (List.mem_range.mp hk))
  have hlength := (List.subperm_of_subset hnodup hsubset).length_le
  rw [List.length_map, List.length_range] at hlength
  omega

/-- **One more attempt than there are names in use is enough.** -/
theorem exists_firstFree (hinj : Set.InjOn candidate {k | k ≤ used.length}) :
    ∃ k, candidate k ∉ used ∧
      ∀ fuel, used.length < fuel → firstFree candidate used fuel 0 = some k := by
  obtain ⟨free, hle, hfree⟩ := exists_free hinj
  have hexists : ∃ k, candidate k ∉ used := ⟨free, hfree⟩
  refine ⟨Nat.find hexists, Nat.find_spec hexists, fun fuel hfuel => ?_⟩
  have hmin : Nat.find hexists ≤ free := Nat.find_min' hexists hfree
  refine firstFree_eq_some (Nat.find_spec hexists) (Nat.zero_le _) (fun j _ hj => ?_) (by omega)
  exact not_not.mp (Nat.find_min hexists hj)

end Rivloom.FreshName
