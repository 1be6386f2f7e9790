import Mathlib.Data.List.Basic

/-!
# Edits at positions that were collected before

A list is often edited in two passes: the first one looks at every element and notes the
positions, the second one inserts or removes there. The positions are those of the list
before the edit, so the second pass has to keep them valid: it inserts from the back, where
an insertion moves nothing that is still to be edited (`Rivloom.ListEdit.insertAfter`), and
it removes in one sweep that counts the positions as they were
(`Rivloom.ListEdit.retain`). Either way, the edit is what each element says on its own.
-/

namespace Rivloom.ListEdit

variable {α β : Type} {p : α → Bool} {l : List α} {start position : ℕ} (f : α → Option α)

/-- What the elements of a list give, each with its position. -/
def collect (f : α → Option β) (l : List α) (start : ℕ) : List (ℕ × β) :=
  (l.zipIdx start).filterMap fun (a, position) => (f a).map (position, ·)

theorem collect_cons (f : α → Option β) (a : α) (l : List α) (start : ℕ) :
    collect f (a :: l) start =
      ((f a).map (start, ·)).toList ++ collect f l (start + 1) := by
  rw [collect, List.zipIdx_cons, List.filterMap_cons]
  dsimp only
  cases f a with
  | none => rfl
  | some b => rfl

/-- **Insert behind the positions**, the last one first. -/
def insertAfter (l : List α) (insertions : List (ℕ × α)) : List α :=
  insertions.reverse.foldl (fun l (position, a) => l.insertIdx (position + 1) a) l

theorem insertAfter_cons (l : List α) (position : ℕ) (a : α) (insertions : List (ℕ × α)) :
    insertAfter l ((position, a) :: insertions) =
      (insertAfter l insertions).insertIdx (position + 1) a := by
  rw [insertAfter, List.reverse_cons, List.foldl_append]
  rfl

theorem insertIdx_append (front l : List α) (i : ℕ) (a : α) :
    (front ++ l).insertIdx (front.length + i) a = front ++ l.insertIdx i a := by
  induction front with
  | nil => rw [List.length_nil, Nat.zero_add, List.nil_append, List.nil_append]
  | cons b front ih =>
    rw [List.length_cons, Nat.succ_add, List.cons_append, List.insertIdx_succ_cons, ih]
    rfl

theorem insertAfter_collect_append (front l : List α) :
    insertAfter (front ++ l) (collect f l front.length) =
      front ++ l.flatMap fun a => a :: (f a).toList := by
  induction l generalizing front with
  | nil => rfl
  | cons a l ih =>
    have hrest := ih (front ++ [a])
    rw [List.length_append, List.length_singleton, List.append_assoc, List.singleton_append,
      List.append_assoc, List.singleton_append] at hrest
    rw [collect_cons, List.flatMap_cons]
    cases f a with
    | none => exact hrest
    | some b =>
      rw [Option.map_some, Option.toList_some, List.singleton_append, insertAfter_cons, hrest,
        insertIdx_append]
      rfl

/-- **Every element is followed by what it gave.** -/
theorem insertAfter_collect (l : List α) :
    insertAfter l (collect f l 0) = l.flatMap fun a => a :: (f a).toList :=
  insertAfter_collect_append f [] l

/-- **Leave out the positions**, in one sweep that counts them. -/
def retain (positions : List ℕ) (position : ℕ) : List α → List α
  | [] => []
  | a :: l =>
    if positions.head? = some position then retain positions.tail (position + 1) l
    else a :: retain positions (position + 1) l

theorem retain_nil (position : ℕ) (l : List α) : retain [] position l = l := by
  induction l generalizing position with
  | nil => rfl
  | cons a l ih => exact congrArg (a :: ·) (ih (position + 1))

/-- The positions of the elements that satisfy a predicate. -/
def positionsOf (p : α → Bool) (l : List α) (start : ℕ) : List ℕ :=
  (l.zipIdx start).filterMap fun (a, position) => if p a then some position else none

theorem positionsOf_cons (p : α → Bool) (a : α) (l : List α) (start : ℕ) :
    positionsOf p (a :: l) start =
      (if p a then [start] else []) ++ positionsOf p l (start + 1) := by
  rw [positionsOf, List.zipIdx_cons, List.filterMap_cons]
  dsimp only
  cases p a with
  | false => rfl
  | true => rfl

theorem positionsOf_append (p : α → Bool) (l l' : List α) (start : ℕ) :
    positionsOf p (l ++ l') start =
      positionsOf p l start ++ positionsOf p l' (start + l.length) := by
  rw [positionsOf, List.zipIdx_append, List.filterMap_append]
  rfl

theorem positionsOf_eq_nil {start : ℕ} : positionsOf p l start = [] ↔ ∀ a ∈ l, p a = false := by
  induction l generalizing start with
  | nil => exact ⟨nofun, fun _ => rfl⟩
  | cons a l ih =>
    rw [positionsOf_cons, List.append_eq_nil_iff, ih, List.forall_mem_cons]
    cases p a with
    | false => simp
    | true => simp

theorem le_of_mem_positionsOf (h : position ∈ positionsOf p l start) : start ≤ position := by
  obtain ⟨⟨a, i⟩, hmem, hsome⟩ := List.mem_filterMap.mp h
  dsimp only at hsome
  split at hsome
  · cases hsome
    exact (List.mem_zipIdx hmem).1
  · cases hsome

/-- **The elements that do not satisfy the predicate are left.** -/
theorem retain_positionsOf (p : α → Bool) (l : List α) (start : ℕ) :
    retain (positionsOf p l start) start l = l.filter fun a => !p a := by
  induction l generalizing start with
  | nil => rfl
  | cons a l ih =>
    rw [retain, positionsOf_cons, List.filter_cons]
    cases p a with
    | true => exact (if_pos rfl).trans (ih (start + 1))
    | false =>
      -- the next position is further on
      have hhead : (positionsOf p l (start + 1)).head? ≠ some start := by
        intro hhead
        exact absurd (le_of_mem_positionsOf (List.mem_of_mem_head? hhead)) (Nat.not_succ_le_self _)
      exact (if_neg hhead).trans (congrArg (a :: ·) (ih (start + 1)))

theorem length_positionsOf (p : α → Bool) (l : List α) (start : ℕ) :
    (positionsOf p l start).length = l.countP p := by
  induction l generalizing start with
  | nil => rfl
  | cons a l ih =>
    rw [positionsOf_cons, List.length_append, ih, List.countP_cons, Nat.add_comm]
    cases p a with
    | false => rfl
    | true => rfl

/-- What stands at a position that was noted satisfies the predicate. -/
theorem exists_of_mem_positionsOf (h : position ∈ positionsOf p l start) :
    ∃ a, l[position - start]? = some a ∧ p a = true := by
  obtain ⟨⟨a, i⟩, hmem, hsome⟩ := List.mem_filterMap.mp h
  dsimp only at hsome
  split at hsome
  next hp =>
    obtain rfl := Option.some.inj hsome
    exact ⟨a, (List.mem_zipIdx_iff_le_and_getElem?_sub.mp hmem).2, hp⟩
  · exact absurd hsome (by simp)

/-- **The element that satisfies a predicate, with so many behind it that do as well.** -/
theorem exists_append_of_lt_countP {k : ℕ} (h : k < l.countP p) :
    ∃ front a rest, l = front ++ a :: rest ∧ p a = true ∧ rest.countP p = k := by
  induction l with
  | nil => exact absurd h (Nat.not_lt_zero k)
  | cons a l ih =>
    by_cases hlater : k < l.countP p
    · obtain ⟨front, b, rest, rfl, hb, hrest⟩ := ih hlater
      exact ⟨a :: front, b, rest, rfl, hb, hrest⟩
    · rw [List.countP_cons] at h
      cases hp : p a with
      | true =>
        rw [hp, if_pos rfl] at h
        exact ⟨[], a, l, rfl, hp, by omega⟩
      | false =>
        rw [hp, if_neg Bool.false_ne_true] at h
        exact absurd h hlater

/-- There is only one such element. -/
theorem append_inj_of_countP {front front' rest rest' : List α} {a a' : α}
    (h : front ++ a :: rest = front' ++ a' :: rest') (ha : p a = true) (ha' : p a' = true)
    (hcount : rest.countP p = rest'.countP p) : front = front' := by
  induction front generalizing front' with
  | nil =>
    cases front' with
    | nil => rfl
    | cons b front' =>
      -- the other one is further on, and has less behind it
      have hrest : rest = front' ++ a' :: rest' := (List.cons.inj h).2
      rw [hrest, List.countP_append, List.countP_cons, if_pos ha'] at hcount
      omega
  | cons b front ih =>
    cases front' with
    | nil =>
      have hrest : front ++ a :: rest = rest' := (List.cons.inj h).2
      rw [← hrest, List.countP_append, List.countP_cons, if_pos ha] at hcount
      omega
    | cons b' front' =>
      obtain ⟨rfl, hrest⟩ := List.cons.inj h
      rw [ih hrest]

/-! ### What holds of every element, given those before it -/

/-- A relation between every element and the elements before it. -/
def AtEach (P : List α → α → Prop) (l : List α) : Prop :=
  ∀ earlier a later, l = earlier ++ a :: later → P earlier a

theorem atEach_nil (P : List α → α → Prop) : AtEach P [] := by
  intro earlier a later h
  exact absurd h.symm (by simp)

/-- One more element. -/
theorem AtEach.concat {P : List α → α → Prop} (h : AtEach P l) {a : α} (ha : P l a) :
    AtEach P (l ++ [a]) := by
  intro earlier b later heq
  rcases List.eq_nil_or_concat later with rfl | ⟨later, c, rfl⟩
  · obtain ⟨rfl, hb⟩ := List.append_inj' heq rfl
    obtain rfl := (List.cons.inj hb).1
    exact ha
  · have hinit : l = earlier ++ b :: later := by
      rw [List.concat_eq_append, ← List.cons_append, ← List.append_assoc] at heq
      exact (List.append_inj' heq rfl).1
    exact h earlier b later hinit

end Rivloom.ListEdit
