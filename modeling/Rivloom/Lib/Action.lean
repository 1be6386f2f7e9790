import Mathlib.Logic.Basic
import Mathlib.Tactic.Common

/-!
# Fallible computations on a mutable state

A method that takes its receiver by mutable reference and returns a result is a
function from the state it finds to a result *and* the state it leaves. The state
is left behind **whether or not the method fails**: what was written before an
early return stays written. That is the one point where
`Rivloom.Action` differs from a computation that rolls back on failure, and it is
why the failing outcomes are part of every statement made about one.

The calculus is one predicate, `Rivloom.Action.wp`: the outcome of a computation,
result and state together, satisfies a postcondition. Its rules push the predicate
through sequencing, guards, reads and writes, so that a computation written as a
chain of steps unfolds into one proof obligation for each way it can end.
-/

namespace Rivloom

variable {ε α β : Type}

/-! ### Fallible results -/

/-- A sequence of fallible steps returns exactly when each one does. -/
theorem Except.bind_eq_ok {x : Except ε α} {f : α → Except ε β} {b : β} :
    (x >>= f) = .ok b ↔ ∃ a, x = .ok a ∧ f a = .ok b := by
  cases x <;> simp [bind, Except.bind]

/-- What is made of a result is made of one that was there. -/
theorem Except.map_eq_ok {x : Except ε α} {f : α → β} {b : β} :
    Except.map f x = .ok b ↔ ∃ a, x = .ok a ∧ f a = b := by
  cases x <;> simp [Except.map]

/-- Translating a failure changes no result. -/
theorem Except.mapError_eq_ok {ε δ α : Type} {x : Except ε α} {f : ε → δ} {a : α} :
    x.mapError f = .ok a ↔ x = .ok a := by
  cases x <;> simp [Except.mapError]

/-- A check that fails under a condition. -/
def Except.failIf {ε : Type} (c : Bool) (e : ε) : Except ε Unit := if c then .error e else .ok ()

@[simp] theorem Except.failIf_eq_ok {ε : Type} {c : Bool} {e : ε} :
    Except.failIf c e = .ok () ↔ c = false := by
  cases c <;> simp [Except.failIf]

/-- A sequence of checks passes exactly when each one does. -/
theorem Except.bind_unit_eq_ok {ε α : Type} {x : Except ε Unit} {f : Unit → Except ε α} {a : α} :
    (x >>= f) = .ok a ↔ x = .ok () ∧ f () = .ok a := by
  rw [Except.bind_eq_ok]
  exact ⟨fun ⟨_, h, h'⟩ => ⟨h, h'⟩, fun ⟨h, h'⟩ => ⟨(), h, h'⟩⟩

/-! ### Actions -/

/-- A computation that reads and writes a state and either returns a value or
fails; the state reached is kept in both cases. -/
def Action (σ ε α : Type) : Type := σ → Except ε α × σ

namespace Action

variable {σ τ ε δ α β : Type} {x : Action σ ε α} {f : α → Action σ ε β} {s s' : σ}

/-- Sequencing: the second computation runs from the state the first one left,
and only when the first one returned. -/
protected def bind (x : Action σ ε α) (f : α → Action σ ε β) : Action σ ε β := fun s =>
  match x s with
  | (.ok a, s') => f a s'
  | (.error e, s') => (.error e, s')

instance : Monad (Action σ ε) where
  pure a := fun s => (.ok a, s)
  bind := Action.bind

protected theorem pure_bind (a : α) (f : α → Action σ ε β) : pure a >>= f = f a := rfl

protected theorem bind_pure (x : Action σ ε α) : x >>= pure = x := by
  funext s
  change Action.bind x pure s = x s
  unfold Action.bind
  rcases x s with ⟨_ | _, _⟩ <;> rfl

protected theorem bind_assoc {γ : Type} (x : Action σ ε α) (f : α → Action σ ε β)
    (g : β → Action σ ε γ) : x >>= f >>= g = x >>= fun a => f a >>= g := by
  funext s
  change Action.bind (Action.bind x f) g s = Action.bind x (fun a => Action.bind (f a) g) s
  unfold Action.bind
  rcases x s with ⟨_ | _, _⟩ <;> rfl

/-- The current state. -/
def get : Action σ ε σ := fun s => (.ok s, s)

/-- Replace the state by a function of it. -/
def modify (f : σ → σ) : Action σ ε Unit := fun s => (.ok (), f s)

/-- A result decided without touching the state. -/
def lift (r : Except ε α) : Action σ ε α := fun s => (r, s)

/-- Go on only if the condition holds. -/
def ensure (c : Bool) (e : ε) : Action σ ε Unit := lift (if c then .ok () else .error e)

/-- The value of an option, or a failure where there is none. -/
def orElse (o : Option α) (e : ε) : Action σ ε α :=
  lift (match o with
    | some a => .ok a
    | none => .error e)

/-- A failure by itself. -/
def fail (e : ε) : Action σ ε α := lift (.error e)

/-- Run a computation and hand over its outcome, so that what follows may look at a
failure. -/
def attempt (x : Action σ ε α) : Action σ δ (Except ε α) := fun s => (.ok (x s).1, (x s).2)

/-- Run a computation on a part of a larger state, translating its failures. -/
def focus (view : τ → σ) (put : σ → τ → τ) (err : ε → δ) (x : Action σ ε α) :
    Action τ δ α := fun t =>
  ((x (view t)).1.mapError err, put (x (view t)).2 t)

/-! ### The outcome of a computation -/

/-- **The outcome of a computation satisfies a postcondition**, a predicate on the
result and on the state left behind. -/
def wp (x : Action σ ε α) (Q : Except ε α → σ → Prop) (s : σ) : Prop := Q (x s).1 (x s).2

/-- What a postcondition asks of the first of two computations: after a return the
second one meets it, and after a failure it holds at once. -/
def andThen (f : α → Action σ ε β) (Q : Except ε β → σ → Prop) : Except ε α → σ → Prop
  | .ok a, s => wp (f a) Q s
  | .error e, s => Q (.error e) s

@[simp] theorem andThen_ok (f : α → Action σ ε β) (Q : Except ε β → σ → Prop) (a : α) (s : σ) :
    andThen f Q (.ok a) s = wp (f a) Q s := rfl

@[simp] theorem andThen_error (f : α → Action σ ε β) (Q : Except ε β → σ → Prop) (e : ε) (s : σ) :
    andThen f Q (.error e) s = Q (.error e) s := rfl

@[simp] theorem wp_pure (a : α) (Q : Except ε α → σ → Prop) (s : σ) :
    wp (pure a) Q s = Q (.ok a) s := rfl

@[simp] theorem wp_bind (x : Action σ ε α) (f : α → Action σ ε β) (Q : Except ε β → σ → Prop)
    (s : σ) : wp (x >>= f) Q s = wp x (andThen f Q) s := by
  change wp (Action.bind x f) Q s = _
  unfold wp Action.bind
  rcases x s with ⟨_ | a, s'⟩ <;> rfl

@[simp] theorem wp_get (Q : Except ε σ → σ → Prop) (s : σ) : wp get Q s = Q (.ok s) s := rfl

@[simp] theorem wp_modify (f : σ → σ) (Q : Except ε Unit → σ → Prop) (s : σ) :
    wp (modify f) Q s = Q (.ok ()) (f s) := rfl

@[simp] theorem wp_lift (r : Except ε α) (Q : Except ε α → σ → Prop) (s : σ) :
    wp (lift r) Q s = Q r s := rfl

@[simp] theorem wp_attempt (x : Action σ ε α) (Q : Except δ (Except ε α) → σ → Prop) (s : σ) :
    wp (attempt x) Q s = wp x (fun r => Q (.ok r)) s := rfl

/-- Wrapping the result leaves the state alone. -/
theorem wp_map (f : α → β) (x : Action σ ε α) (Q : Except ε β → σ → Prop) (s : σ) :
    wp (f <$> x) Q s ↔ wp x (fun r => Q (r.map f)) s := by
  change wp (x >>= fun a => pure (f a)) Q s ↔ _
  rw [wp_bind]
  unfold wp
  rcases x s with ⟨_ | a, s'⟩ <;> rfl

theorem map_snd (f : α → β) (x : Action σ ε α) (s : σ) : ((f <$> x) s).2 = (x s).2 :=
  (wp_map f x (fun _ s' => s' = (x s).2) s).mpr rfl

theorem map_of_ok (f : α → β) {a : α} (h : x s = (.ok a, s')) : (f <$> x) s = (.ok (f a), s') := by
  change Action.bind x (fun a => pure (f a)) s = _
  rw [Action.bind, h]
  rfl

/-- A guard has two outcomes, and it leaves the state alone in both. -/
theorem wp_ensure (c : Bool) (e : ε) (Q : Except ε Unit → σ → Prop) (s : σ) :
    wp (ensure c e) Q s ↔ (c = true → Q (.ok ()) s) ∧ (c = false → Q (.error e) s) := by
  cases c <;> simp [ensure]

/-- A lookup has two outcomes, and it leaves the state alone in both. -/
theorem wp_orElse (o : Option α) (e : ε) (Q : Except ε α → σ → Prop) (s : σ) :
    wp (orElse o e) Q s ↔
      (∀ a, o = some a → Q (.ok a) s) ∧ (o = none → Q (.error e) s) := by
  cases o <;> simp [orElse]

/-- Working on a part leaves the outcome of the part, seen from the whole. -/
theorem wp_focus (view : τ → σ) (put : σ → τ → τ) (err : ε → δ) (x : Action σ ε α)
    (Q : Except δ α → τ → Prop) (t : τ) :
    wp (focus view put err x) Q t ↔
      wp x (fun r s => Q (r.mapError err) (put s t)) (view t) := Iff.rfl

/-- A weaker postcondition follows. -/
theorem wp_mono {Q R : Except ε α → σ → Prop} {s : σ} (h : wp x Q s) (hQR : ∀ r s', Q r s' → R r s')
    : wp x R s :=
  hQR _ _ h

/-- **Reading a specification off a run.** -/
theorem of_wp {Q : Except ε α → σ → Prop} {r : Except ε α} (h : wp x Q s) (hx : x s = (r, s')) :
    Q r s' := by
  unfold wp at h
  rwa [hx] at h

/-- A sequence that returned: its first part returned, and its second part
returned from the state the first one left. -/
theorem bind_eq_ok {b : β} (h : (x >>= f) s = (.ok b, s')) :
    ∃ a s₁, x s = (.ok a, s₁) ∧ f a s₁ = (.ok b, s') := by
  change Action.bind x f s = _ at h
  unfold Action.bind at h
  rcases hx : x s with ⟨e | a, s₁⟩
  · rw [hx] at h
    simp at h
  · rw [hx] at h
    exact ⟨a, s₁, rfl, h⟩

/-- A sequence whose first part returned goes on from the state it left. -/
theorem bind_of_ok {a : α} (h : x s = (.ok a, s')) : (x >>= f) s = f a s' := by
  change Action.bind x f s = _
  rw [Action.bind, h]

/-- A sequence whose first part failed ends there. -/
theorem bind_of_error {e : ε} (h : x s = (.error e, s')) : (x >>= f) s = (.error e, s') := by
  change Action.bind x f s = _
  rw [Action.bind, h]

theorem ensure_of_true {c : Bool} (h : c = true) (e : ε) (s : σ) :
    (ensure c e : Action σ ε Unit) s = (.ok (), s) := by
  rw [h]
  rfl

/-! ### Invariants of the state -/

/-- **A computation keeps what is true of the state**, whether it returns or fails. -/
def Preserves (P : σ → Prop) (x : Action σ ε α) : Prop := ∀ s, P s → P (x s).2

variable {P : σ → Prop}

theorem Preserves.pure (a : α) : Preserves P (pure a : Action σ ε α) := fun _ h => h

theorem Preserves.get : Preserves P (get : Action σ ε σ) := fun _ h => h

theorem Preserves.lift (r : Except ε α) : Preserves P (lift r : Action σ ε α) := fun _ h => h

theorem Preserves.ensure (c : Bool) (e : ε) : Preserves P (ensure c e : Action σ ε Unit) :=
  fun _ h => h

theorem Preserves.bind (hx : Preserves P x) (hf : ∀ a, Preserves P (f a)) :
    Preserves P (x >>= f) := by
  intro s hs
  change P (Action.bind x f s).2
  unfold Action.bind
  have hfirst := hx s hs
  rcases hrun : x s with ⟨_ | a, s'⟩
  · rw [hrun] at hfirst
    exact hfirst
  · rw [hrun] at hfirst
    exact hf a s' hfirst

end Action

end Rivloom
