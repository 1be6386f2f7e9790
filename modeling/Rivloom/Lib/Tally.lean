import Mathlib.Algebra.BigOperators.Group.List.Basic
import Mathlib.Algebra.Order.BigOperators.Group.List
import Mathlib.Algebra.Order.Ring.Nat
import Mathlib.Data.List.AList

/-!
# What several processes hold together

In a system of processes that share a counter, the counter has to agree with what the
processes hold: each one so much as its own state says, and all together the sum
(`Rivloom.Tally.tally`). When one process changes, the sum changes by what that process held
before and holds now, which is all that an invariant about the counter needs. The same is true
of what is registered in a map (`Rivloom.Tally.registered`), under a key that is erased or
written again.
-/

namespace Rivloom.Tally

variable {π : Type*} {processes : List π} (weight : π → ℕ) {i : ℕ}

/-- What the processes hold together, where one process holds `weight` of its state. -/
def tally (weight : π → ℕ) (processes : List π) : ℕ := (processes.map weight).sum

@[simp] theorem tally_cons (p : π) (processes : List π) :
    tally weight (p :: processes) = weight p + tally weight processes := rfl

/-- A new process adds what it holds. -/
theorem tally_concat (processes : List π) (p : π) :
    tally weight (processes ++ [p]) = tally weight processes + weight p := by
  simp only [tally, List.map_append, List.sum_append, List.map_cons, List.map_nil,
    List.sum_singleton]

/-- **One process changes**, and the others do not. -/
theorem tally_set {p : π} (h : processes[i]? = some p) (p' : π) :
    tally weight (processes.set i p') + weight p = tally weight processes + weight p' := by
  induction processes generalizing i with
  | nil => exact absurd h (by simp)
  | cons q processes ih =>
    cases i with
    | zero =>
      obtain rfl : q = p := Option.some.inj h
      simp only [List.set_cons_zero, tally_cons]
      omega
    | succ i =>
      have hrest := ih h
      simp only [List.set_cons_succ, tally_cons]
      omega

/-- No process holds more than all of them. -/
theorem le_tally {p : π} (h : processes[i]? = some p) : weight p ≤ tally weight processes :=
  List.single_le_sum (fun _ _ => Nat.zero_le _) _
    (List.mem_map_of_mem (List.mem_of_getElem? h))

/-- Processes that hold one or nothing are counted. -/
theorem tally_toNat (p : π → Bool) (processes : List π) :
    tally (fun q => (p q).toNat) processes = processes.countP p := by
  induction processes with
  | nil => rfl
  | cons q processes ih =>
    rw [tally_cons, List.countP_cons, ih, Nat.add_comm]
    cases p q with
    | false => rfl
    | true => rfl

/-! ### Maps -/

variable {κ β : Type*} [DecidableEq κ]

/-- What the values of a map hold together. -/
def registered (weight : β → ℕ) (m : AList fun _ : κ => β) : ℕ :=
  tally (fun entry => weight entry.2) m.entries

/-- Erasing a key takes away what its value holds. -/
theorem registered_erase (weight : β → ℕ) (m : AList fun _ : κ => β) (k : κ) :
    registered weight (m.erase k) + (m.lookup k).elim 0 weight = registered weight m := by
  suffices h : ∀ entries : List (Sigma fun _ : κ => β),
      tally (fun entry => weight entry.2) (entries.kerase k) +
        (entries.dlookup k).elim 0 weight = tally (fun entry => weight entry.2) entries from
    h m.entries
  intro entries
  induction entries with
  | nil => rfl
  | cons entry entries ih =>
    obtain ⟨k', v⟩ := entry
    by_cases hk : k = k'
    · have hkept : (⟨k', v⟩ :: entries : List (Sigma fun _ : κ => β)).kerase k = entries :=
        List.kerase_cons_eq hk
      subst hk
      rw [hkept, List.dlookup_cons_eq, tally_cons]
      exact Nat.add_comm _ _
    · have hkept : (⟨k', v⟩ :: entries : List (Sigma fun _ : κ => β)).kerase k =
          ⟨k', v⟩ :: entries.kerase k :=
        List.kerase_cons_ne hk
      rw [hkept, List.dlookup_cons_ne _ _ hk, tally_cons, tally_cons, Nat.add_assoc, ih]

/-- Writing a key takes away what its old value holds, and adds what its new one does. -/
theorem registered_insert (weight : β → ℕ) (m : AList fun _ : κ => β) (k : κ) (v : β) :
    registered weight (m.insert k v) + (m.lookup k).elim 0 weight =
      registered weight m + weight v := by
  have herase := registered_erase weight m k
  have hinsert : registered weight (m.insert k v) = weight v + registered weight (m.erase k) :=
    rfl
  omega

end Rivloom.Tally
