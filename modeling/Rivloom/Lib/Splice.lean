import Mathlib.Data.List.Sort

/-!
# Replacing several pieces of a list

An edit replaces a piece of a list by other elements; the piece is given by its place in the list as
it was before any edit. Edits that stand one behind the other (`Rivloom.Splice.Ordered`) can be made
in one pass from the front, which copies what lies between them (`Rivloom.Splice.splice`): this is
what a list of edits means. They can also be made one at a time, if the last one comes first, since
then the places of those that are still to be made do not move
(`Rivloom.Splice.applyBack_eq_splice`).

Edits that were collected in another order stand one behind the other once they are sorted by their
places, provided that any two of them stand apart (`Rivloom.Splice.Apart`). Of two edits that begin
at the same place at least one replaces nothing, and their order is then the one in which they were
collected: the sorting has to be stable, and an edit that replaces something must not come first.
-/

namespace Rivloom.Splice

variable {α ε : Type} {l : List ε}

/-- **An edit**: from a place on, so many elements are replaced by new ones. -/
structure Edit (α : Type) where
  start : ℕ
  oldLen : ℕ
  new : List α

/-- The place behind what is replaced. -/
def Edit.stop (e : Edit α) : ℕ := e.start + e.oldLen

theorem Edit.start_le_stop (e : Edit α) : e.start ≤ e.stop := Nat.le_add_right _ _

/-- **The edits stand one behind the other**, inside a list of some length. -/
structure Ordered (n : ℕ) (edits : List (Edit α)) : Prop where
  apart : edits.Pairwise fun a b => a.stop ≤ b.start
  inside : ∀ e ∈ edits, e.stop ≤ n

/-- **The list with all edits made.** It is given from some place on, and the edits come later. -/
def splice (lower : ℕ) (l : List α) : List (Edit α) → List α
  | [] => l
  | e :: rest =>
    l.take (e.start - lower) ++ e.new ++ splice e.stop (l.drop (e.stop - lower)) rest

/-- The edits are made one after the other, the last one first. -/
def applyBack (l : List α) (edits : List (Edit α)) : List α :=
  edits.foldr (fun e l => l.take e.start ++ e.new ++ l.drop e.stop) l

/-- What stands before all edits is left alone. -/
theorem applyBack_append (front l : List α) (edits : List (Edit α))
    (h : Ordered (front.length + l.length) edits) (hlower : ∀ e ∈ edits, front.length ≤ e.start) :
    applyBack (front ++ l) edits = front ++ splice front.length l edits := by
  induction edits generalizing front l with
  | nil => rfl
  | cons e rest ih =>
    have hstart : front.length ≤ e.start := hlower e List.mem_cons_self
    have hstop : e.stop ≤ front.length + l.length := h.inside e List.mem_cons_self
    have hle := e.start_le_stop
    -- the rest of the edits stand behind what this one replaces
    have hfront : (front ++ l.take (e.stop - front.length)).length = e.stop := by
      rw [List.length_append, List.length_take]
      omega
    have hlength : (front ++ l.take (e.stop - front.length)).length +
        (l.drop (e.stop - front.length)).length = front.length + l.length := by
      rw [hfront, List.length_drop]
      omega
    obtain ⟨hfirst, hrest⟩ := List.pairwise_cons.mp h.apart
    have hback := ih (front ++ l.take (e.stop - front.length)) (l.drop (e.stop - front.length))
      (hlength ▸ ⟨hrest, fun e he => h.inside e (List.mem_cons_of_mem _ he)⟩)
      (fun b hb => hfront.le.trans (hfirst b hb))
    rw [List.append_assoc, List.take_append_drop, hfront] at hback
    have htake : ((front ++ l.take (e.stop - front.length)) ++
        splice e.stop (l.drop (e.stop - front.length)) rest).take e.start =
        front ++ l.take (e.start - front.length) := by
      rw [List.take_append_of_le_length (by omega), List.take_append, List.take_of_length_le hstart,
        List.take_take, Nat.min_eq_left (by omega)]
    have hdrop : ((front ++ l.take (e.stop - front.length)) ++
        splice e.stop (l.drop (e.stop - front.length)) rest).drop e.stop =
        splice e.stop (l.drop (e.stop - front.length)) rest := by
      rw [List.drop_append_of_le_length (by omega), List.drop_of_length_le (by omega),
        List.nil_append]
    change (applyBack (front ++ l) rest).take e.start ++ e.new ++
      (applyBack (front ++ l) rest).drop e.stop = _
    rw [hback, htake, hdrop, splice]
    simp only [List.append_assoc]

/-- **Edits that stand one behind the other can be made from the back.** -/
theorem applyBack_eq_splice {l : List α} {edits : List (Edit α)} (h : Ordered l.length edits) :
    applyBack l edits = splice 0 l edits := by
  have hback := applyBack_append [] l edits (by simpa using h) (fun e _ => Nat.zero_le _)
  simpa using hback

/-! ### Edits in another order -/

variable (start stop : ε → ℕ)

/-- **One thing, and another that was collected later, stand apart**: the later one begins behind
the other, or it begins before the other and ends there at the latest. -/
def Apart (a b : ε) : Prop := stop a ≤ start b ∨ (start b < start a ∧ stop b ≤ start a)

variable {start stop}

/-- A thing is put in its place among others that stand one behind the other. -/
theorem pairwise_orderedInsert (hle : ∀ a, start a ≤ stop a) {a : ε}
    (h : l.Pairwise fun a b => stop a ≤ start b) (ha : ∀ b ∈ l, Apart start stop a b) :
    (l.orderedInsert (fun a b => start a ≤ start b) a).Pairwise fun a b => stop a ≤ start b := by
  induction l with
  | nil => exact List.pairwise_singleton _ _
  | cons b l ih =>
    obtain ⟨hfirst, hrest⟩ := List.pairwise_cons.mp h
    have hself := hle a
    have hother := hle b
    rw [List.orderedInsert_cons]
    split
    · next hab =>
      refine List.pairwise_cons.mpr ⟨fun c hc => ?_, h⟩
      -- nothing from here on begins before the new one
      have hbc : start b ≤ start c := by
        rcases List.mem_cons.mp hc with rfl | hc
        · exact le_refl _
        · exact hother.trans (hfirst c hc)
      rcases ha c hc with hbehind | ⟨hbefore, -⟩
      · exact hbehind
      · omega
    · next hab =>
      refine List.pairwise_cons.mpr ⟨fun c hc => ?_,
        ih hrest fun c hc => ha c (List.mem_cons_of_mem _ hc)⟩
      rcases (List.mem_orderedInsert _).mp hc with rfl | hc
      · rcases ha b List.mem_cons_self with hbehind | ⟨-, hbefore⟩
        · omega
        · exact hbefore
      · exact hfirst c hc

/-- **Things that stand apart stand one behind the other once they are sorted.** -/
theorem pairwise_insertionSort (hle : ∀ a, start a ≤ stop a) (h : l.Pairwise (Apart start stop)) :
    (l.insertionSort fun a b => start a ≤ start b).Pairwise fun a b => stop a ≤ start b := by
  induction l with
  | nil => exact List.Pairwise.nil
  | cons a l ih =>
    obtain ⟨hfirst, hrest⟩ := List.pairwise_cons.mp h
    refine pairwise_orderedInsert hle (ih hrest) fun b hb => hfirst b ?_
    exact (List.mem_insertionSort _).mp hb

/-- **Things that stand for edits**, and stand apart inside a list, are edits that stand one behind
the other once they are sorted. -/
theorem ordered_insertionSort (f : ε → Edit α) {n : ℕ}
    (h : l.Pairwise (Apart (fun a => (f a).start) fun a => (f a).stop))
    (hinside : ∀ a ∈ l, (f a).stop ≤ n) :
    Ordered n ((l.insertionSort fun a b => (f a).start ≤ (f b).start).map f) := by
  refine ⟨?_, fun e he => ?_⟩
  · rw [List.pairwise_map]
    exact pairwise_insertionSort (fun a => (f a).start_le_stop) h
  · obtain ⟨a, ha, rfl⟩ := List.mem_map.mp he
    exact hinside a ((List.mem_insertionSort _).mp ha)

end Rivloom.Splice
