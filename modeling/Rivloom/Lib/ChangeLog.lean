import Mathlib.Tactic.Common

/-!
# Logs of changes

A **log** lists changes that were made to a state, each of them in a form in which it
can be made again and taken back. The log tells the story of a run if making the
changes again from the first state leads to the last, and taking them back in reverse
order leads from the last to the first: `Rivloom.ChangeLog.Tells`.

A log is told one change at a time – the rule is
`Rivloom.ChangeLog.Tells.concat` – so that a program that keeps one is right as soon
as every change it makes is the one it enters.
-/

namespace Rivloom

/-- How a change is made and taken back. -/
structure ChangeLog (σ χ : Type) where
  replay : χ → σ → σ
  undo : χ → σ → σ

namespace ChangeLog

variable {σ χ : Type} (changes : ChangeLog σ χ)

/-- The changes of a log, made in order. -/
def replayAll (log : List χ) (s : σ) : σ := log.foldl (fun s c => changes.replay c s) s

/-- The changes of a log, taken back in reverse order. -/
def undoAll (log : List χ) (s : σ) : σ := log.foldr changes.undo s

/-- **The log tells the way from one state to another**, and back. -/
structure Tells (start : σ) (log : List χ) (now : σ) : Prop where
  replay : changes.replayAll log start = now
  undo : changes.undoAll log now = start

variable {changes}

theorem Tells.nil (s : σ) : changes.Tells s [] s := ⟨rfl, rfl⟩

/-- One more change. -/
theorem Tells.concat {start now next : σ} {log : List χ} {c : χ}
    (h : changes.Tells start log now) (hreplay : changes.replay c now = next)
    (hundo : changes.undo c next = now) : changes.Tells start (log ++ [c]) next := by
  constructor
  · have hstart : log.foldl (fun s c => changes.replay c s) start = now := h.replay
    rw [replayAll, List.foldl_append, hstart]
    exact hreplay
  · rw [undoAll, List.foldr_append]
    change log.foldr changes.undo (changes.undo c next) = start
    rw [hundo]
    exact h.undo

end ChangeLog

end Rivloom
