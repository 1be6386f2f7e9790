import Mathlib.Data.List.DropRight
import Mathlib.Tactic.Common

/-!
# The two ends of a sequence

A long sequence is summed up by its first `h` items, the last `t` of the others, and how many there
are in between. Such a summary can be made piece by piece, since all that the last items of `l ++ m`
need of `l` are its own last items (`Rivloom.BothEnds.rtake_append`) – and nothing at all, if `m` is
long enough (`Rivloom.BothEnds.rtake_append_of_le`).
-/

namespace Rivloom.BothEnds

variable {α : Type*} {n : ℕ}

theorem length_rtake (l : List α) (n : ℕ) : (l.rtake n).length = min n l.length := by
  rw [List.rtake, List.length_drop]
  omega

theorem rtake_of_length_le {l : List α} (h : l.length ≤ n) : l.rtake n = l := by
  rw [List.rtake, Nat.sub_eq_zero_of_le h, List.drop_zero]

/-- The last items of a sequence are among those of its last piece, if that is long enough. -/
theorem rtake_append_of_le (l : List α) {m : List α} (h : n ≤ m.length) :
    (l ++ m).rtake n = m.rtake n := by
  rw [List.rtake, List.rtake, List.drop_append, List.drop_of_length_le, List.nil_append,
    List.length_append]
  · congr 1
    omega
  · rw [List.length_append]
    omega

/-- **The last items of a sequence need only the last items of what comes first.** -/
theorem rtake_append (l m : List α) (n : ℕ) : (l.rtake n ++ m).rtake n = (l ++ m).rtake n := by
  rw [List.rtake, List.rtake, List.rtake, List.drop_append, List.drop_append, List.drop_drop,
    List.length_append, List.length_append, List.length_drop]
  congr 2
  · omega
  · omega

end Rivloom.BothEnds
