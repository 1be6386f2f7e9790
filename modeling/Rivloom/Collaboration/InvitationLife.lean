import Rivloom.Collaboration.HostSteps
import Rivloom.Collaboration.SnapshotFile

/-!
# An invitation is used once

An invitation is created, it may be cancelled, it expires, and it can be redeemed by whoever
has its secret. Redeeming touches three registries – the invitation is consumed, a credential
issued, a member enrolled – and may fail between any two of them, so that it is only the
transaction around it that makes it one step. This file follows one invitation through a run
of transactions and counts the members that a run can enrol.

An invitation is known by its random id, and an id that was used up may be drawn again; what
is followed is therefore the id *since it was created last*. Two facts about one transaction
carry the argument. The invitation pending under an id stays, goes, or is created
(`Rivloom.Collaboration.Commit.pending_step`), and an id that a transaction redeemed or
cancelled had an invitation and has none afterwards
(`Rivloom.Collaboration.Commit.Consumes`). The members are counted together with the pending
invitations: joining trades one for the other.

A join that fails leaves the invitations in memory alone, and as good as they were for
everybody who comes later – unless it is the file that failed. A store that could not write
or read its file is of no more use, and neither are its invitations.
-/

namespace Rivloom.Collaboration

variable {reply : BrainReply} {b b' : Brain} {now : ℤ}

open BrainStore (create holding stage transact transact_of_poisoned)
open Brain (join length_zeros observe observe_eq redeemed small)

/-! ### Seats -/

/-- Members and pending invitations, counted together. -/
def Brain.seats (b : Brain) : ℕ := b.members.size + b.invitations.pending.size

/-- The reply of an operation that created an invitation. -/
def BrainReply.isInvitation : BrainReply → Bool
  | .invitation _ => true
  | .session _ | .done | .enrollment _ | .revision _ | .page _ => false

/-- **An operation adds a seat only by creating an invitation**: whoever joins takes one that
there was. -/
theorem BrainOp.Effect.seats {op : BrainOp} (h : BrainOp.Effect now b op reply b') :
    b'.seats ≤ b.seats + reply.isInvitation.toNat := by
  cases h with
  | invited token secret =>
    have hpruned : (b.invitations.unexpired now).size ≤ b.invitations.pending.size :=
      Std.ExtTreeMap.size_filter_le_size
    have hsize := @StrMap.size_insert_le _ (b.invitations.unexpired now) token.text
      (InvitationRegistry.issuedInvitation secret now)
    change b.members.size + ((b.invitations.unexpired now).insert token.text _).size ≤
      b.members.size + b.invitations.pending.size + 1
    omega
  | cancelled => exact Nat.add_le_add_left Std.ExtTreeMap.size_erase_le _
  | enrolled invitation memberToken _ _ _ _ _ _ _ _ _ _ hredeem hissue hnew =>
    have hpending := StrMap.size_erase_of_some hredeem.pending
    change (b.members.insert ("member-" ++ memberToken.text) _).size +
      (b.invitations.pending.erase _).size ≤ b.members.size + b.invitations.pending.size
    rw [StrMap.size_insert_of_none hnew]
    omega
  | revoked member hclock hmember =>
    change (b.members.insert _ _).size + b.invitations.pending.size ≤ b.members.size + _
    rw [StrMap.size_insert_of_some hmember]
  | served _ hreset => cases hreset <;> exact le_refl _
  | _ => exact le_refl _

/-- **An operation that is committed**, with the time and what it meets in the file
system. -/
structure Commit where
  op : BrainOp
  now : ℤ
  env : Environment

namespace Commit

variable {s s' : BrainStore} {c : Commit} {id : String} {calls : List Commit}

/-- What a store answers. -/
def run (c : Commit) : Action BrainStore StorageError BrainReply :=
  transact c.now (c.op.run c.now) c.env

/-- One transaction. -/
def step (s : BrainStore) (c : Commit) : BrainStore := (c.run s).2

/-- An invitation is created. -/
def Creates (s : BrainStore) (c : Commit) (invitation : IssuedInvitation) : Prop :=
  (c.run s).1 = .ok (.invitation invitation)

/-- Somebody joins. -/
def Enrolls (s : BrainStore) (c : Commit) (request : JoinRequest) : Prop :=
  ∃ random enrollment, c.op = .join request random ∧ (c.run s).1 = .ok (.enrollment enrollment)

/-- An invitation is cancelled. -/
def Cancels (s : BrainStore) (c : Commit) (id : String) : Prop :=
  c.op = .cancelInvitation id ∧ ∃ reply, (c.run s).1 = .ok reply

/-! ### One transaction -/

/-- **A transaction returns and has its effect, or it fails and moves at most the clock.** -/
theorem ends (hregistries : s.brain.Registries) (c : Commit) :
    (∃ reply, (c.run s).1 = .ok reply ∧
      BrainOp.Effect c.now (s.brain.tick c.now) c.op reply (step s c).brain) ∨
    ∃ e, (c.run s).1 = .error e ∧ ((step s c).brain = s.brain ∨
      s.brain.clock.Accepts c.now ∧ (step s c).brain = s.brain.tick c.now) := by
  have hrun : c.run s = ((c.run s).1, step s c) := rfl
  cases hresult : (c.run s).1 with
  | ok reply =>
    rw [hresult] at hrun
    obtain ⟨-, hreturned, -⟩ := BrainStore.returned_of_transact hregistries hrun
    exact Or.inl ⟨reply, rfl, BrainOp.effect_of_run hreturned⟩
  | error e =>
    refine Or.inr ⟨e, rfl, ?_⟩
    rw [hresult] at hrun
    have houtcome := Action.of_wp (BrainStore.wp_transact s c.now (c.op.run c.now) c.env) hrun
    have hstaging := BrainStore.staging_stage hregistries c.now (c.op.run c.now)
    generalize hr : (Except.error e : Except StorageError BrainReply) = r at houtcome
    generalize step s c = s' at houtcome
    -- Only what was rolled back is staged with an error.
    have hstaged : ∀ staged : Staged BrainReply,
        stage s.brain c.now (c.op.run c.now) = .ok staged → staged.result = .error e →
        s.brain.clock.Accepts c.now ∧ staged.candidate = s.brain.tick c.now := by
      intro staged hstage hfailed
      rw [hstage] at hstaging
      cases hstaging with
      | kept => cases hfailed
      | rolledBack hclock => exact ⟨hclock, rfl⟩
    cases houtcome with
    | unavailable | changed | refused | unconfirmed => exact Or.inl rfl
    | same _ _ hstage => exact Or.inr (hstaged _ hstage hr.symm)
    | written _ _ hstage => exact Or.inr (hstaged _ hstage hr.symm)

/-- A store in use commits what its Brain returns. -/
theorem run_inUse (h : s.InUse b) (hregistries : b.Registries) {encoded encoded' : ByteArray}
    (hencode : b.encode = .ok encoded) (c : Commit) (henv : c.env.Works)
    (hclock : b.clock.Accepts c.now) (hreturned : c.op.run c.now (b.tick c.now) = (.ok reply, b'))
    (hencode' : b'.encode = .ok encoded') : (c.run s).1 = .ok reply ∧ (step s c).InUse b' :=
  h.transact hregistries hencode henv hclock hreturned hencode'

theorem registries_step (hregistries : s.brain.Registries) (c : Commit) :
    (step s c).brain.Registries :=
  Brain.stable_registries.transact (Brain.stable_registries.run c.op c.now) c.now c.env hregistries

theorem Creates.pending {invitation : IssuedInvitation} (h : Creates s c invitation)
    (hregistries : s.brain.Registries) :
    (step s c).brain.invitations.pending[invitation.invitationId]? =
      some ⟨invitation.secret.digest .invitation, c.now, invitation.expiresAt⟩ := by
  rcases ends hregistries c with ⟨reply, hok, heffect⟩ | ⟨e, herr, -⟩
  · obtain rfl := Except.ok.inj (h.symm.trans hok)
    generalize (step s c).brain = b' at heffect ⊢
    generalize c.op = op at heffect
    cases heffect with
    | invited token secret =>
      change (((s.brain.tick c.now).invitations.unexpired c.now).insert token.text _)[token.text]? =
        _
      rw [StrMap.getElem?_insert, if_pos rfl]
      rfl
  · cases h.symm.trans herr

/-- **The invitation under an id is created, stays or goes.** -/
theorem pending_step (hregistries : s.brain.Registries) (c : Commit) (id : String) :
    (∃ invitation, Creates s c invitation ∧ invitation.invitationId = id) ∨
      (step s c).brain.invitations.pending[id]? = s.brain.invitations.pending[id]? ∨
      (step s c).brain.invitations.pending[id]? = none := by
  rcases ends hregistries c with ⟨reply, hok, heffect⟩ | ⟨e, -, hsame | ⟨-, hticked⟩⟩
  · generalize hb' : (step s c).brain = b' at heffect
    have hreturned : (c.run s).1 = .ok reply := hok
    generalize c.op = op at heffect
    have herased : ∀ key : String, (s.brain.invitations.pending.erase key)[id]? =
        s.brain.invitations.pending[id]? ∨ (s.brain.invitations.pending.erase key)[id]? = none := by
      intro key
      rw [StrMap.getElem?_erase]
      split
      · exact Or.inr rfl
      · exact Or.inl rfl
    cases heffect with
    | invited token secret =>
      by_cases heq : token.text = id
      · exact Or.inl ⟨_, hreturned, heq⟩
      · right
        change (((s.brain.tick c.now).invitations.unexpired c.now).insert token.text _)[id]? = _ ∨
          (((s.brain.tick c.now).invitations.unexpired c.now).insert token.text _)[id]? = _
        rw [StrMap.getElem?_insert, if_neg heq]
        -- An invitation that has expired is dropped.
        cases hfound : ((s.brain.tick c.now).invitations.unexpired c.now)[id]? with
        | none => exact Or.inr rfl
        | some invitation =>
          exact Or.inl (InvitationRegistry.getElem?_unexpired.mp hfound).1.symm
    | cancelled => exact Or.inr (herased _)
    | enrolled => exact Or.inr (herased _)
    | served _ hreset => cases hreset <;> exact Or.inr (Or.inl rfl)
    | _ => exact Or.inr (Or.inl rfl)
  · exact Or.inr (Or.inl (by rw [hsame]))
  · exact Or.inr (Or.inl (by rw [hticked]; rfl))

/-- An invitation is used up: somebody joins with it, or it is cancelled. -/
def Consumes (s : BrainStore) (c : Commit) (id : String) : Prop :=
  (∃ request, Enrolls s c request ∧ request.invitationId = id) ∨ Cancels s c id

/-- Whoever joins has the secret of an invitation that is pending and has not expired, and
uses it up. -/
theorem Enrolls.canRedeem {request : JoinRequest} (h : Enrolls s c request)
    (hregistries : s.brain.Registries) :
    (step s c).brain.invitations.pending[request.invitationId]? = none ∧
      ∃ invitation, s.brain.invitations.CanRedeem request c.now invitation := by
  obtain ⟨random, enrollment, hop, hok⟩ := h
  rcases ends hregistries c with ⟨reply, hok', heffect⟩ | ⟨e, herr, -⟩
  · generalize (step s c).brain = b' at heffect ⊢
    rw [hop] at heffect
    cases heffect with
    | enrolled invitation _ _ _ _ _ _ _ _ _ _ _ hredeem =>
      refine ⟨?_, invitation, hredeem⟩
      change ((s.brain.tick c.now).invitations.pending.erase request.invitationId)[
        request.invitationId]? = none
      rw [StrMap.getElem?_erase, if_pos rfl]
  · cases hok.symm.trans herr

/-- **What is used up was pending, and is not any more.** -/
theorem Consumes.pending (h : Consumes s c id) (hregistries : s.brain.Registries) :
    (∃ invitation, s.brain.invitations.pending[id]? = some invitation) ∧
      (step s c).brain.invitations.pending[id]? = none := by
  rcases h with ⟨request, henrolls, rfl⟩ | ⟨hop, reply, hok⟩
  · obtain ⟨hgone, invitation, hredeem⟩ := henrolls.canRedeem hregistries
    exact ⟨⟨invitation, hredeem.pending⟩, hgone⟩
  · rcases ends hregistries c with ⟨reply', hok', heffect⟩ | ⟨e, herr, -⟩
    · generalize (step s c).brain = b' at heffect ⊢
      rw [hop] at heffect
      cases heffect with
      | cancelled invitation hclock hrevision hpending =>
        refine ⟨⟨invitation, hpending⟩, ?_⟩
        change ((s.brain.tick c.now).invitations.pending.erase id)[id]? = none
        rw [StrMap.getElem?_erase, if_pos rfl]
    · cases hok.symm.trans herr

/-! ### Runs -/

/-- The id is drawn for an invitation somewhere in a run. -/
def Created (s : BrainStore) (calls : List Commit) (id : String) : Prop :=
  ∃ before c later invitation, calls = before ++ c :: later ∧
    Creates (Run.after step s before) c invitation ∧ invitation.invitationId = id

/-- The invitation under an id is used up somewhere in a run. -/
def Consumed (s : BrainStore) (calls : List Commit) (id : String) : Prop :=
  ∃ before c later, calls = before ++ c :: later ∧ Consumes (Run.after step s before) c id

theorem created_cons : Created s (c :: calls) id ↔
    (∃ invitation, Creates s c invitation ∧ invitation.invitationId = id) ∨
      Created (step s c) calls id := by
  constructor
  · rintro ⟨_ | ⟨first, before⟩, c', later, invitation, hcalls, hcreates, hid⟩
    · obtain ⟨rfl, rfl⟩ := List.cons.inj hcalls
      exact Or.inl ⟨invitation, hcreates, hid⟩
    · obtain ⟨rfl, rfl⟩ := List.cons.inj hcalls
      exact Or.inr ⟨before, c', later, invitation, rfl, hcreates, hid⟩
  · rintro (⟨invitation, hcreates, hid⟩ | ⟨before, c', later, invitation, rfl, hcreates, hid⟩)
    · exact ⟨[], c, calls, invitation, rfl, hcreates, hid⟩
    · exact ⟨c :: before, c', later, invitation, rfl, hcreates, hid⟩

theorem registries_after (hregistries : s.brain.Registries) (calls : List Commit) :
    (Run.after step s calls).brain.Registries :=
  Run.invariant (I := fun s : BrainStore => s.brain.Registries)
    (fun _ c h => registries_step h c) hregistries calls

/-- **As long as its id is not drawn again, an invitation stays or is gone.** -/
theorem pending_after (hregistries : s.brain.Registries) (hnot : ¬Created s calls id) :
    (Run.after step s calls).brain.invitations.pending[id]? = s.brain.invitations.pending[id]? ∨
      (Run.after step s calls).brain.invitations.pending[id]? = none := by
  induction calls generalizing s with
  | nil => exact Or.inl rfl
  | cons c calls ih =>
    rw [created_cons, not_or] at hnot
    rw [Run.after_cons]
    rcases ih (registries_step hregistries c) hnot.2 with hkept | hgone
    · rw [hkept]
      exact (pending_step hregistries c id).resolve_left hnot.1
    · exact Or.inr hgone

/-- **What is used up stays so**, as long as its id is not drawn again. -/
theorem Consumed.pending (hregistries : s.brain.Registries) (h : Consumed s calls id)
    (hnot : ¬Created s calls id) :
    (Run.after step s calls).brain.invitations.pending[id]? = none := by
  obtain ⟨before, c, later, rfl, hconsumes⟩ := h
  have hbefore := registries_after hregistries before
  have hgone := (hconsumes.pending hbefore).2
  have hlater : ¬Created (step (Run.after step s before) c) later id := by
    rintro ⟨middle, c', rest, invitation, rfl, hcreates, hid⟩
    refine hnot ⟨before ++ c :: middle, c', rest, invitation, by simp, ?_, hid⟩
    rwa [Run.after_append, Run.after_cons]
  rw [Run.after_append, Run.after_cons]
  rcases pending_after (registries_step hbefore c) hlater with hkept | hnone
  · rw [hkept, hgone]
  · exact hnone

/-! ### Members -/

/-- Whether a transaction creates an invitation. -/
def creates (s : BrainStore) (c : Commit) : Bool :=
  match (c.run s).1 with
  | .ok reply => reply.isInvitation
  | .error _ => false

/-- How many invitations are created in a run. -/
def created : BrainStore → List Commit → ℕ
  | _, [] => 0
  | s, c :: calls => (creates s c).toNat + created (step s c) calls

/-- **A transaction adds a seat only by creating an invitation.** -/
theorem seats_step (hregistries : s.brain.Registries) (c : Commit) :
    (step s c).brain.seats ≤ s.brain.seats + (creates s c).toNat := by
  rcases ends hregistries c with ⟨reply, hok, heffect⟩ | ⟨e, -, hsame | ⟨-, hticked⟩⟩
  · rw [creates, hok]
    exact heffect.seats
  · rw [hsame]
    exact Nat.le_add_right _ _
  · rw [hticked]
    exact Nat.le_add_right _ _

theorem seats_after (hregistries : s.brain.Registries) (calls : List Commit) :
    (Run.after step s calls).brain.seats ≤ s.brain.seats + created s calls := by
  induction calls generalizing s with
  | nil => exact le_refl _
  | cons c calls ih =>
    have hlater := ih (registries_step hregistries c)
    have hstep := seats_step hregistries c
    rw [Run.after_cons, created]
    omega

/-! ### A join that fails -/

/-- A method that begins by observing a later time returns the same, whichever earlier time
was observed before. -/
theorem observe_tick {α : Type} {b : Brain} {now later : ℤ} (rest : BrainAction α)
    (hclock : b.clock.Accepts now) (hlater : now ≤ later) :
    ((do observe later; rest) (b.tick now)).1 = ((do observe later; rest) b).1 := by
  have haccepts : (b.tick now).clock.Accepts later ↔ b.clock.Accepts later :=
    ⟨fun h => ⟨h.1, hclock.2.trans hlater⟩, fun h => ⟨h.1, hlater⟩⟩
  change (Action.bind (observe later) (fun _ => rest) (b.tick now)).1 =
    (Action.bind (observe later) (fun _ => rest) b).1
  rw [Action.bind, Action.bind, observe_eq, observe_eq]
  by_cases h : b.clock.Accepts later
  · rw [if_pos h, if_pos (haccepts.mpr h)]
    rfl
  · rw [if_neg h, if_neg fun h' => h (haccepts.mp h')]

/-- **A transaction that fails leaves the invitations alone**, and for whoever joins at that
time or later, joining ends as it would have ended before. -/
theorem usable_of_error (hregistries : s.brain.Registries) {e : StorageError}
    (h : (c.run s).1 = .error e) :
    (step s c).brain.invitations.pending = s.brain.invitations.pending ∧
      ∀ request random later, c.now ≤ later →
        (join request random later (step s c).brain).1 =
          (join request random later s.brain).1 := by
  rcases ends hregistries c with ⟨reply, hok, -⟩ | ⟨e', -, hsame | ⟨hclock, hticked⟩⟩
  · cases hok.symm.trans h
  · rw [hsame]
    exact ⟨rfl, fun _ _ _ _ => rfl⟩
  · rw [hticked]
    exact ⟨rfl, fun request random later hlater => observe_tick _ hclock hlater⟩

theorem size_of_create {file : Option ByteArray} {brainId : String} {owner : OwnerProfile}
    {random : JoinRandom} {replacement : Replacement} {credential : IssuedCredential}
    (h : create file brainId owner random now replacement = .ok (s, credential)) :
    s.brain.members.size = 1 ∧ s.brain.invitations.pending.size = 0 := by
  rw [create, Except.bind_eq_ok] at h
  obtain ⟨⟨b, issued⟩, hboot, h⟩ := h
  obtain ⟨memberToken, nodeToken, secret, -, -, -, -, -, -, rfl⟩ :=
    Brain.bootstrap_eq_ok (Except.mapError_eq_ok.mp hboot)
  split at h
  · cases h
  · obtain ⟨bytes, -, h⟩ := Except.bind_eq_ok.mp h
    obtain ⟨done, -, h⟩ := Except.bind_eq_ok.mp h
    obtain ⟨rfl, -⟩ := Prod.mk.inj (Except.ok.inj h)
    exact ⟨Brain.size_singleton, rfl⟩

/-- **An invitation is used once.** In every run of transactions of a store: when somebody
joins with an invitation that was created in the run, the invitation has been neither
redeemed nor cancelled since it was created, it has not expired, and the secret is its own,
as far as hashes tell secrets apart. Whoever joins has an invitation that was created in the
run, or that the store had when it was created or read. A join that fails leaves the pending
invitations as they were, and whoever joins later fares as before – unless the store is
poisoned, in which case nothing succeeds any more. And there are at most as many members as there
were members and invitations, plus those created – in a store that was created, one plus the number
of invitations. -/
theorem invitation_single_use {s₀ : BrainStore} (h₀ : s₀.Ready) (before : List Commit) :
    let s := Run.after step s₀ before
    (∀ c between c' invitation request,
      let s' := Run.after step (step s c) between
      Creates s c invitation → ¬Created (step s c) between invitation.invitationId →
      Enrolls s' c' request → request.invitationId = invitation.invitationId →
      ¬Consumed (step s c) between invitation.invitationId ∧ c'.now < invitation.expiresAt ∧
        request.secret.digest .invitation = invitation.secret.digest .invitation) ∧
    (∀ c request, Enrolls s c request → Created s₀ before request.invitationId ∨
      ∃ invitation, s₀.brain.invitations.pending[request.invitationId]? = some invitation) ∧
    (∀ c request random e, c.op = .join request random → (c.run s).1 = .error e →
      (step s c).brain.invitations.pending = s.brain.invitations.pending ∧
      if (step s c).poisoned then ∀ c' : Commit, (c'.run (step s c)).1 = .error .unavailable
      else ∀ request random later, c.now ≤ later →
        (join request random later (step s c).brain).1 =
          (join request random later s.brain).1) ∧
    s.brain.members.size ≤
      s₀.brain.members.size + s₀.brain.invitations.pending.size + created s₀ before ∧
    ∀ file brainId owner random now replacement credential,
      create file brainId owner random now replacement = .ok (s₀, credential) →
      s.brain.members.size ≤ 1 + created s₀ before := by
  intro s
  have hregistries₀ : s₀.brain.Registries := h₀.durable.registries
  have hregistries : s.brain.Registries := registries_after hregistries₀ before
  have hseats : s.brain.members.size + s.brain.invitations.pending.size ≤
      s₀.brain.members.size + s₀.brain.invitations.pending.size + created s₀ before :=
    seats_after hregistries₀ before
  refine ⟨?_, fun c request henrolls => ?_, fun c request random e _ hfailed => ?_, by omega, ?_⟩
  · intro c between c' invitation request s' hcreates hnot henrolls hid
    have hstepped := registries_step hregistries c
    have hregistries' : s'.brain.Registries := registries_after hstepped between
    obtain ⟨-, pending, hredeem⟩ := henrolls.canRedeem hregistries'
    have hpending := hredeem.pending
    rw [hid] at hpending
    refine ⟨fun hconsumed => ?_, ?_⟩
    · rw [hconsumed.pending hstepped hnot] at hpending
      cases hpending
    · rcases pending_after hstepped hnot with hkept | hgone
      · rw [hkept, hcreates.pending hregistries] at hpending
        obtain rfl := Option.some.inj hpending
        exact ⟨hredeem.unexpired, hredeem.secret⟩
      · cases hgone.symm.trans hpending
  · by_contra hneither
    rw [not_or, not_exists] at hneither
    obtain ⟨-, pending, hredeem⟩ := henrolls.canRedeem hregistries
    rcases pending_after hregistries₀ hneither.1 with hkept | hgone
    · exact hneither.2 pending (hkept.symm.trans hredeem.pending)
    · cases hgone.symm.trans hredeem.pending
  · obtain ⟨hpending, husable⟩ := usable_of_error hregistries hfailed
    refine ⟨hpending, ?_⟩
    split
    · next hpoisoned =>
      intro c'
      rw [run, transact_of_poisoned hpoisoned]
    · exact husable
  · intro file brainId owner random now replacement credential hcreate
    obtain ⟨hmembers, hpending⟩ := size_of_create hcreate
    omega

/-! ### A small store with an invitation -/

/-- A token of zeros. -/
def zeros : SecretToken := ⟨Digest.hex ⟨List.replicate 32 0, length_zeros⟩, hex_digest _⟩

/-- What is known of the token of zeros, as the secret of an invitation. -/
def zerosVerifier : Digest :=
  ⟨[243, 215, 16, 196, 96, 53, 202, 96, 155, 150, 219, 182, 208, 31, 230, 47, 182, 156, 38, 27, 231,
    130, 195, 127, 74, 125, 98, 228, 204, 148, 107, 180], rfl⟩

/-- The small Brain with an invitation. -/
def inviting : Brain :=
  { small with
    invitations := ⟨"brain", ⟨5⟩, (∅ : StrMap PendingInvitation).insert zeros.text
      { verifier := zerosVerifier, issuedAt := 5, expiresAt := 605 }⟩ }

/-- What a guest asks for, with the secret of the invitation. -/
def guest : JoinRequest :=
  { brainId := "brain", invitationId := zeros.text, secret := zeros, identityId := "identity"
    deviceId := "device", displayName := "Guest" }

/-- What is drawn when the guest joins. -/
def draws : JoinRandom :=
  ⟨some ⟨List.replicate 32 0, length_zeros⟩, some ⟨List.replicate 32 0, length_zeros⟩,
    some ⟨List.replicate 32 0, length_zeros⟩⟩

/-- The guest joins, over a file system that works or does not. -/
def guestJoins (env : Environment) : Commit := ⟨.join guest draws, 6, env⟩

/-- A file that cannot be read. -/
def unreadable : Environment := { Environment.quiet with unreadable := some .read }

theorem registries_inviting : inviting.Registries :=
  ⟨CredentialRegistry.isOk_tryFrom.mp rfl, InvitationRegistry.isOk_tryFrom.mp rfl, by decide,
    by decide⟩

theorem encode_inviting : inviting.encode = .ok (Brain.codec.toBytes inviting) :=
  (Brain.validate_eq_ok.mp (by decide +kernel)).encode_eq (by decide +kernel)

theorem ready_inviting : (holding inviting).Ready :=
  .loaded (@BrainStore.loaded_holding _ _ .quiet registries_inviting encode_inviting rfl)

theorem changed_inviting :
    ((guestJoins unreadable).run (holding inviting)).1 = .error .changed ∧
      (step (holding inviting) (guestJoins unreadable)).poisoned = true :=
  ⟨rfl, rfl⟩

/-- The owner invites somebody, with a token and a secret of zeros. -/
def invites : Commit :=
  ⟨.createInvitation (some ⟨List.replicate 32 0, length_zeros⟩)
    (some ⟨List.replicate 32 0, length_zeros⟩), 5, .quiet⟩

/-- The guest joins. -/
def joins : Commit := guestJoins .quiet

/-- The small Brain with the invitation. -/
def invited : Brain := ((Brain.small.tick 5).invited zeros zeros 5).withClocks ⟨5⟩ ⟨5⟩ ⟨5⟩

/-- And after the guest has joined. -/
def enrolled : Brain :=
  ((invited.tick 6).enrolled guest ((invited.tick 6).invitations.joinBinding guest zeros zeros)
    zeros 6).withClocks ⟨6⟩ ⟨6⟩ ⟨6⟩

theorem digest_zeros : zeros.digest .invitation = zerosVerifier ∧ zeros.digest .nodeCredential =
    ⟨[221, 159, 21, 190, 39, 47, 86, 148, 194, 250, 235, 201, 7, 241, 75, 112, 235, 32, 121, 146,
      143, 96, 244, 208, 84, 185, 44, 38, 216, 137, 166, 249], rfl⟩ := by
  decide +kernel

/-- The guest can join, and what is left each time fits into the file. -/
theorem joins_fits : (joins.op.run joins.now (invited.tick joins.now)).1.isOk = true ∧
    (Brain.codec.enc invited).size ≤ maxBrainBytes ∧
    (Brain.codec.enc enrolled).size ≤ maxBrainBytes := by
  simp only [enrolled, Brain.enrolled, redeemed, CredentialRegistry.issuedRecord, invited,
    Brain.invited, InvitationRegistry.issuedInvitation, digest_zeros]
  decide +kernel

theorem run_invites : invites.op.run invites.now (Brain.small.tick invites.now) =
    (.ok (.invitation ⟨"brain", zeros.text, 605, zeros⟩), invited) := by
  have hok : (invites.op.run invites.now (Brain.small.tick invites.now)).1.isOk = true := rfl
  rcases hrun : invites.op.run invites.now (Brain.small.tick invites.now) with ⟨e | reply, b⟩
  · rw [hrun] at hok
    cases hok
  · have heffect := BrainOp.effect_of_run hrun
    rw [show invites.op = .createInvitation _ _ from rfl] at heffect
    cases heffect with
    | invited token secret htoken hsecret =>
      obtain rfl : token = zeros := (Except.ok.inj htoken).symm
      obtain rfl : secret = zeros := (Except.ok.inj hsecret).symm
      rfl

theorem run_joins : ∃ enrollment, joins.op.run joins.now (invited.tick joins.now) =
    (.ok (.enrollment enrollment), enrolled) := by
  have hok := joins_fits.1
  rcases hrun : joins.op.run joins.now (invited.tick joins.now) with ⟨e | reply, b⟩
  · rw [hrun] at hok
    cases hok
  · have heffect := BrainOp.effect_of_run hrun
    rw [show joins.op = .join guest draws from rfl] at heffect
    cases heffect with
    | enrolled invitation memberToken nodeToken secret hmember hnode hsecret =>
      obtain rfl : memberToken = zeros := (Except.ok.inj hmember).symm
      obtain rfl : nodeToken = zeros := (Except.ok.inj hnode).symm
      obtain rfl : secret = zeros := (Except.ok.inj hsecret).symm
      exact ⟨_, rfl⟩

theorem later_invited : invited.clock.Accepts joins.now :=
  ⟨by decide, show (5 : ℤ) ≤ 6 by decide⟩

theorem accepted_invited : invited.Accepted :=
  (BrainOp.effect_of_run run_invites).changed.accepted Brain.origin_small.accepted

theorem encode_invited : ∃ encoded, invited.encode = .ok encoded :=
  ⟨_, accepted_invited.valid.encode_eq joins_fits.2.1⟩

theorem encode_enrolled : ∃ encoded, enrolled.encode = .ok encoded := by
  obtain ⟨enrollment, hjoined⟩ := run_joins
  have hticked : (invited.tick joins.now).Accepted :=
    accepted_invited.withClocks later_invited (.inl rfl) (.inl rfl)
  have haccepted := (BrainOp.effect_of_run hjoined).changed.accepted hticked
  exact ⟨_, haccepted.valid.encode_eq joins_fits.2.2⟩

/-- An invitation is created and a guest joins with it; whoever comes with it later does not. -/
theorem invitation_single_use_guest :
    ∃ invitation, Creates (.holding small) invites invitation ∧
      Enrolls (step (.holding small) invites) joins guest ∧
      ∀ c, ¬Enrolls (Run.after step (step (.holding small) invites) [joins]) c guest := by
  have hstore := BrainStore.inUse_holding Brain.encode_small
  have hready := BrainStore.ready_small
  generalize holding small = s at hstore hready ⊢
  obtain ⟨encoded, hinvited⟩ := encode_invited
  obtain ⟨encoded', henrolled⟩ := encode_enrolled
  obtain ⟨enrollment, hjoined⟩ := run_joins
  have hregistries : invited.Registries := Brain.registries_small.run invites.op 5
  obtain ⟨hcreates, hstore⟩ := run_inUse hstore Brain.registries_small Brain.encode_small invites
    ⟨rfl, rfl, rfl⟩ (by decide) run_invites hinvited
  have hjoins := (run_inUse hstore hregistries hinvited joins ⟨rfl, rfl, rfl⟩ later_invited
    hjoined henrolled).1
  have henrolls : Enrolls (step s invites) joins guest := ⟨draws, enrollment, rfl, hjoins⟩
  refine ⟨_, hcreates, henrolls, fun c hagain => ?_⟩
  -- a join draws no invitation, and it uses this one up
  have hnot : ¬Created (step s invites) [joins] zeros.text := by
    rw [created_cons]
    rintro (⟨invitation, hcreated, -⟩ | ⟨before, c', later, invitation, hcalls, -⟩)
    · rw [Creates, hjoins] at hcreated
      cases hcreated
    · exact List.append_ne_nil_of_right_ne_nil _ (List.cons_ne_nil _ _) hcalls.symm
  have hconsumed : Consumed (step s invites) [joins] zeros.text := by
    refine ⟨[], joins, [], rfl, ?_⟩
    rw [Run.after_nil]
    exact Or.inl ⟨guest, henrolls, rfl⟩
  have hsingle := (invitation_single_use hready []).1 invites [joins] c
    ⟨"brain", zeros.text, 605, zeros⟩ guest
  rw [Run.after_nil] at hsingle
  exact (hsingle hcreates hnot hagain rfl).1 hconsumed

/-- **A join that fails may take the invitation with it**: the guest could join, but the
attempt met a file that could not be read, and from then on nobody can. -/
theorem not_usable_inviting :
    (holding inviting).Ready ∧ (join guest draws 6 inviting).1.isOk = true ∧
      ((guestJoins unreadable).run (holding inviting)).1 = .error .changed ∧
      ((guestJoins .quiet).run (step (holding inviting) (guestJoins unreadable))).1 =
        .error .unavailable :=
  ⟨ready_inviting, by decide +kernel, changed_inviting.1,
    by rw [run, transact_of_poisoned changed_inviting.2]⟩

end Commit

end Rivloom.Collaboration
