import Rivloom.Collaboration.Node

/-!
# What the operations of a node do

A page either advances the pass, ends it with a new view, or is refused – and then the
view stays and the pass is gone. `Rivloom.Collaboration.Node.wp_acceptPage` has one
premise for each; `Rivloom.Collaboration.Node.Takes` says what a page must be for the
first two, in terms of the pass it belongs to.
-/

namespace Rivloom.Collaboration

open Rivloom.Action (andThen_error andThen_ok wp wp_bind wp_ensure wp_get wp_modify)

namespace Node

variable {Q : Except NodeError Unit → Node → Prop} {node : Node}

/-- A page that belongs to the pass under way, and the pass with its record added. -/
structure Takes (node : Node) (page : Page) (pending : PendingSync) : Prop where
  valid : page.validate = .ok ()
  brainId : page.brainId = node.binding.brainId
  memberId : page.memberId = node.binding.memberId
  after : page.after = node.currentSync.request.after
  offset : page.offset = node.currentSync.request.offset
  revision : ∀ revision, node.currentSync.request.atRevision = some revision →
    revision = page.atRevision
  stage : PendingSync.stage page.records node.currentSync = some pending
  size : pending.records.size ≤ maxSharedRecords
  bytes : (recordsJson pending.records).bytes.size ≤ maxViewBytes

/-- The request after a page. -/
def nextRequest (page : Page) (offset : ℕ) : ReconcileRequest :=
  { after := page.after, atRevision := some page.atRevision, offset }

/-- The node after a page that was not the last one. -/
def advanced (node : Node) (page : Page) (pending : PendingSync) (offset : ℕ) : Node :=
  { node with ready := false, sync := some { pending with request := nextRequest page offset } }

/-- The node after the last page of a pass. -/
def published (node : Node) (page : Page) (pending : PendingSync) : Node :=
  { node with
    ready := true, sync := none, records := pending.records, revision := page.atRevision }

/-- The node after a page it refused. -/
def dropped (node : Node) : Node := { node with ready := false, sync := none }

/-- **Taking a page.** -/
theorem wp_acceptPage {page : Page} {Q : Except NodeError (Option ReconcileRequest) → Node → Prop}
    (hnext : ∀ pending offset, node.Takes page pending → page.next = some offset →
      Q (.ok (some (nextRequest page offset))) (node.advanced page pending offset))
    (hlast : ∀ pending, node.Takes page pending → page.next = none →
      View.valid node.binding pending.records = true →
      Q (.ok none) (node.published page pending))
    (herr : (∀ pending, node.Takes page pending →
        page.next = none ∧ View.valid node.binding pending.records = false) →
      Q (.error .invalid) node.dropped) : wp (acceptPage page) Q node := by
  simp only [acceptPage, wp_bind, wp_get, andThen_ok, wp_modify, Action.wp_lift]
  cases hvalid : page.validate with
  | error e =>
    refine herr fun pending htakes => ?_
    rw [htakes.valid] at hvalid
    cases hvalid
  | ok _ =>
    simp only [Except.mapError, andThen_ok, wp_bind, wp_ensure, Action.wp_orElse, andThen_error]
    refine ⟨fun hmatches => ⟨fun pending hstage => ⟨fun hsize => ?_, fun hsize => ?_⟩,
      fun hstage => ?_⟩, fun hmatches => ?_⟩
    · simp only [Bool.and_eq_true, beq_iff_eq, decide_eq_true_eq,
        Option.all_eq_true] at hmatches hsize
      obtain ⟨⟨⟨⟨hbrain, hmember⟩, hafter⟩, hoffset⟩, hrevision⟩ := hmatches
      have htakes : node.Takes page pending :=
        ⟨hvalid, hbrain, hmember, hafter, hoffset, hrevision, hstage, hsize.1, hsize.2⟩
      cases hpage : page.next with
      | some offset => exact hnext pending offset htakes hpage
      | none =>
        simp only [wp_bind, wp_ensure, andThen_ok, andThen_error, wp_modify, Action.wp_pure]
        refine ⟨fun hview => hlast pending htakes hpage hview, fun hview => herr ?_⟩
        intro pending' htakes'
        obtain rfl := Option.some.inj (hstage.symm.trans htakes'.stage)
        exact ⟨hpage, hview⟩
    · refine herr fun pending' htakes => ?_
      obtain rfl := Option.some.inj (hstage.symm.trans htakes.stage)
      rw [decide_eq_true htakes.size, decide_eq_true htakes.bytes] at hsize
      cases hsize
    · refine herr fun pending htakes => ?_
      rw [htakes.stage] at hstage
      cases hstage
    · refine herr fun pending htakes => ?_
      have hrevision : (node.currentSync.request.atRevision.all
          fun revision => revision == page.atRevision) = true :=
        (Option.all_eq_true _ _).mpr fun revision h => by simpa using htakes.revision revision h
      simp [htakes.brainId, htakes.memberId, htakes.after, htakes.offset, hrevision] at hmatches

theorem wp_queueConfirmed {message : Message}
    (hnew : Q (.ok ()) { node with pendingMessage := some message }) (hsame : Q (.ok ()) node)
    (herr : ∀ e, Q (.error e) node) : wp (queueConfirmed message) Q node := by
  simp only [queueConfirmed, wp_bind, wp_get, andThen_ok, wp_ensure, andThen_error]
  refine ⟨fun _ => ?_, fun _ => herr _⟩
  cases node.pendingMessage with
  | some pending => exact (wp_ensure _ _ _ _).mpr ⟨fun _ => hsame, fun _ => herr _⟩
  | none => exact hnew

theorem wp_acknowledge {key : String} {revision : ℕ}
    (hok : Q (.ok ()) { node with pendingMessage := none, ready := false, sync := none })
    (herr : Q (.error .invalid) node) : wp (acknowledge key revision) Q node := by
  simp only [acknowledge, wp_bind, wp_get, andThen_ok, wp_ensure, andThen_error, wp_modify]
  exact ⟨fun _ => hok, fun _ => herr⟩

end Node

end Rivloom.Collaboration
