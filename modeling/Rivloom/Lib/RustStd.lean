import Mathlib.Tactic.Common
import Mathlib.Algebra.Order.Ring.Int

/-!
# Pieces of the Rust standard library

The text predicates and the fixed-width arithmetic that the modelled code takes from
the standard library, where Lean's own behave differently: white space and control
characters are Unicode's, and the integer operations state what they do at the ends
of their range.
-/

namespace Rivloom

/-- `char::is_whitespace`: the Unicode property `White_Space`. -/
def isWhitespace (c : Char) : Bool :=
  let n := c.toNat
  (9 ≤ n && n ≤ 13) || n == 0x20 || n == 0x85 || n == 0xA0 || n == 0x1680 ||
    (0x2000 ≤ n && n ≤ 0x200A) || n == 0x2028 || n == 0x2029 || n == 0x202F || n == 0x205F ||
    n == 0x3000

/-- `char::is_control`: the Unicode category `Cc`. -/
def isControl (c : Char) : Bool :=
  let n := c.toNat
  n < 0x20 || (0x7F ≤ n && n ≤ 0x9F)

/-- `s.trim().is_empty()`: nothing but white space. -/
def trimIsEmpty (s : String) : Bool := s.toList.all isWhitespace

/-- `s.strip_prefix(lead)`: what stands behind a lead. -/
def stripLead (lead s : String) : Option String :=
  if lead.toList <+: s.toList then some (String.ofList (s.toList.drop lead.toList.length)) else none

namespace I64

/-- The greatest 64-bit signed integer. -/
def max : ℤ := 2 ^ 63 - 1

/-- The least 64-bit signed integer. -/
def min : ℤ := -2 ^ 63

/-- `i64::checked_add`. -/
def checkedAdd (a b : ℤ) : Option ℤ :=
  if min ≤ a + b ∧ a + b ≤ max then some (a + b) else none

/-- `i64::saturating_sub`. -/
def saturatingSub (a b : ℤ) : ℤ :=
  if a - b < min then min else if max < a - b then max else a - b

theorem checkedAdd_eq_some {a b c : ℤ} (h : checkedAdd a b = some c) : c = a + b := by
  unfold checkedAdd at h
  split at h
  · exact (Option.some.inj h).symm
  · cases h

end I64

namespace U64

/-- `u64::MAX`, and `usize::MAX` where addresses have 64 bits. -/
def maxValue : ℕ := 2 ^ 64 - 1

/-- `u64::checked_add`. -/
def checkedAdd (a b : ℕ) : Option ℕ := if a + b < 2 ^ 64 then some (a + b) else none

/-- `u64::saturating_add`. -/
def saturatingAdd (a b : ℕ) : ℕ := min (a + b) maxValue

/-- Sums that are cut off at the end of the range are the sum, cut off. -/
theorem saturatingAdd_min (a b : ℕ) :
    saturatingAdd (min a maxValue) (min b maxValue) = min (a + b) maxValue := by
  rw [saturatingAdd]
  omega

theorem saturatingAdd_min_left (a b : ℕ) :
    saturatingAdd (min a maxValue) b = min (a + b) maxValue := by
  rw [saturatingAdd]
  omega

end U64

end Rivloom
