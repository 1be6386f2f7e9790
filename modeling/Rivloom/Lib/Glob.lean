import Mathlib.Data.List.Basic
import Mathlib.Tactic.Common

/-!
# Glob patterns

A **glob** is a sequence of characters, each of which stands for some words of another
alphabet: a letter for itself, a wildcard for many. `Rivloom.Glob.test` runs a glob on a word,
by every way to cut off what its first character stands for.

The language of a glob is compositional – a word is in the language of two globs behind each
other exactly if it can be cut in two (`Rivloom.Glob.test_append`) – and that is all that a
comparison of globs needs: whatever replaces a part of a glob by a wider part makes a wider
glob. The other fact used of a language is when it holds the empty word
(`Rivloom.Glob.test_nil`).
-/

namespace Rivloom.Glob

variable {γ α : Type} (piece : γ → List α → Bool)

/-- Whether a glob matches a whole word, if its characters stand for these pieces. -/
def test : List γ → List α → Bool
  | [], word => word.isEmpty
  | c :: glob, word =>
    (List.range (word.length + 1)).any fun n => piece c (word.take n) && test glob (word.drop n)

@[simp] theorem test_nil_left (word : List α) : test piece [] word = true ↔ word = [] := by
  simp [test]

theorem test_cons (c : γ) (glob : List γ) (word : List α) :
    test piece (c :: glob) word = true ↔
      ∃ w₁ w₂, word = w₁ ++ w₂ ∧ piece c w₁ = true ∧ test piece glob w₂ = true := by
  simp only [test, List.any_eq_true, List.mem_range, Bool.and_eq_true]
  constructor
  · rintro ⟨n, -, hpiece, hrest⟩
    exact ⟨word.take n, word.drop n, (List.take_append_drop n word).symm, hpiece, hrest⟩
  · rintro ⟨w₁, w₂, rfl, hpiece, hrest⟩
    refine ⟨w₁.length, by rw [List.length_append]; omega, ?_⟩
    rw [List.take_left, List.drop_left]
    exact ⟨hpiece, hrest⟩

/-- **A word is in the language of two globs behind each other if it can be cut in two**, each
part in the language of one. -/
theorem test_append (g₁ g₂ : List γ) (word : List α) :
    test piece (g₁ ++ g₂) word = true ↔
      ∃ w₁ w₂, word = w₁ ++ w₂ ∧ test piece g₁ w₁ = true ∧ test piece g₂ w₂ = true := by
  induction g₁ generalizing word with
  | nil => simp
  | cons c glob ih =>
    simp only [List.cons_append, test_cons, ih]
    constructor
    · rintro ⟨w, _, rfl, hpiece, w₁, w₂, rfl, h₁, h₂⟩
      exact ⟨w ++ w₁, w₂, (List.append_assoc w w₁ w₂).symm, ⟨w, w₁, rfl, hpiece, h₁⟩, h₂⟩
    · rintro ⟨_, w₂, rfl, ⟨w, w₁, rfl, hpiece, h₁⟩, h₂⟩
      exact ⟨w, w₁ ++ w₂, List.append_assoc w w₁ w₂, hpiece, w₁, w₂, rfl, h₁, h₂⟩

/-- The empty word is matched by characters that stand for it. -/
theorem test_nil (glob : List γ) : test piece glob [] = true ↔ ∀ c ∈ glob, piece c [] = true := by
  induction glob with
  | nil => simp
  | cons c glob ih => simp [test, ih]

end Rivloom.Glob
