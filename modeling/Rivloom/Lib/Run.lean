import Mathlib.Tactic.Common

/-!
# Runs

A system that takes one step for each event is a function of its state and of the event;
a run is the list of its events. An invariant that every step preserves holds after every
run, and a relation that every step respects, if it is reflexive and transitive, holds
between the ends of every run.

Where not every event may happen at any time, a run is one along which every event was
allowed when it happened (`Rivloom.Run.Along`), and the rules ask no more of a step than
that it was allowed.
-/

namespace Rivloom.Run

universe u v

variable {σ : Type u} {ε : Type v}

/-- The state after a list of events. -/
def after (step : σ → ε → σ) (s : σ) (events : List ε) : σ := events.foldl step s

variable {step : σ → ε → σ}

@[simp] theorem after_nil (s : σ) : after step s [] = s := rfl

@[simp] theorem after_cons (s : σ) (e : ε) (events : List ε) :
    after step s (e :: events) = after step (step s e) events := rfl

@[simp] theorem after_append (s : σ) (events events' : List ε) :
    after step s (events ++ events') = after step (after step s events) events' := by
  simp only [after, List.foldl_append]

/-- **What every step preserves holds after every run.** -/
theorem invariant {I : σ → Prop} (hstep : ∀ s e, I s → I (step s e)) {s : σ} (h : I s)
    (events : List ε) : I (after step s events) := by
  induction events generalizing s with
  | nil => exact h
  | cons e events ih => exact ih (hstep s e h)

/-- **What every step respects holds between the ends of every run.** -/
theorem respects {R : σ → σ → Prop} (hrefl : ∀ s, R s s)
    (htrans : ∀ {s s' s''}, R s s' → R s' s'' → R s s'') (hstep : ∀ s e, R s (step s e)) (s : σ)
    (events : List ε) : R s (after step s events) := by
  induction events generalizing s with
  | nil => exact hrefl s
  | cons e events ih => exact htrans (hstep s e) (ih (step s e))

/-! ### Events that are allowed when they happen -/

/-- Every event of a run is allowed where it happens. -/
def Along (step : σ → ε → σ) (allowed : σ → ε → Prop) (s : σ) : List ε → Prop
  | [] => True
  | e :: events => allowed s e ∧ Along step allowed (step s e) events

variable {allowed : σ → ε → Prop}

instance decidableAlong [∀ s e, Decidable (allowed s e)] (s : σ) :
    (events : List ε) → Decidable (Along step allowed s events)
  | [] => .isTrue trivial
  | e :: events =>
    have := decidableAlong (step s e) events
    inferInstanceAs (Decidable (allowed s e ∧ Along step allowed (step s e) events))

/-- Events that are allowed wherever they happen. -/
theorem along_of_forall {allowed : ε → Prop} {s : σ} {events : List ε}
    (h : ∀ e ∈ events, allowed e) : Along step (fun _ e => allowed e) s events := by
  induction events generalizing s with
  | nil => exact trivial
  | cons e events ih =>
    exact ⟨h e List.mem_cons_self, ih fun e' hmem => h e' (List.mem_cons_of_mem e hmem)⟩

theorem along_append {s : σ} {events events' : List ε} :
    Along step allowed s (events ++ events') ↔
      Along step allowed s events ∧ Along step allowed (after step s events) events' := by
  induction events generalizing s with
  | nil => simp [Along]
  | cons e events ih => rw [List.cons_append, Along, Along, ih, after_cons, and_assoc]

/-- Events that are allowed for two reasons. -/
theorem Along.and {allowed' : σ → ε → Prop} {s : σ} {events : List ε}
    (h : Along step allowed s events) (h' : Along step allowed' s events) :
    Along step (fun s e => allowed s e ∧ allowed' s e) s events := by
  induction events generalizing s with
  | nil => exact trivial
  | cons e events ih => exact ⟨⟨h.1, h'.1⟩, ih h.2 h'.2⟩

/-- **What every allowed step preserves holds after every run of allowed steps.** -/
theorem invariant_along {I : σ → Prop} (hstep : ∀ s e, I s → allowed s e → I (step s e)) {s : σ}
    (h : I s) {events : List ε} (halong : Along step allowed s events) :
    I (after step s events) := by
  induction events generalizing s with
  | nil => exact h
  | cons e events ih => exact ih (hstep s e h halong.1) halong.2

end Rivloom.Run
