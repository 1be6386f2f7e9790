import Rivloom.Collaboration.Storage
import Rivloom.Lib.Run
import Mathlib.Data.Set.Function

/-!
# Transactions are atomic and durable

What one call of `Rivloom.Collaboration.BrainStore.transact` can do, and what holds along
every sequence of calls, whatever the operations are, whatever the times are, and however
the file system behaves.

A transaction stages before it commits. `Rivloom.Collaboration.BrainStore.Staging` lists
how staging ends – five ways, of which two have something to commit – and
`Rivloom.Collaboration.BrainStore.Outcome` lists how the call ends, with the state it
leaves. The invariant that is carried along a run is
`Rivloom.Collaboration.BrainStore.Durable`: a store that is not poisoned knows its file,
and the file holds the Brain in memory.

The store recognizes its file by a hash, and a document with the hash of the file is not
written again. All that follows is therefore about runs in which no two contents of the
file have one hash (`Rivloom.Collaboration.BrainStore.contents`).
-/

namespace Rivloom.Collaboration

open Rivloom.Action (andThen_ok focus of_wp wp wp_bind wp_lift wp_modify)

variable {encoded : ByteArray} {b : Brain} {e : StorageError}

/-! ### Staging -/

namespace Brain

/-- The Brain with its own clock moved to a time, and nothing else. -/
def tick (b : Brain) (now : ℤ) : Brain := { b with clock := ⟨now⟩ }

theorem Registries.tick (h : b.Registries) (now : ℤ) : (b.tick now).Registries :=
  ⟨h.credentials, h.invitations, h.records_size, h.pending_size⟩

theorem observe_eq (b : Brain) (now : ℤ) :
    observe now b = if b.clock.Accepts now then (.ok (), b.tick now)
      else (.error (.access .rejected), b) := by
  rw [observe, focus, Clock.observe_eq]
  split <;> rfl

end Brain

namespace BrainStore

variable {α : Type} {s : BrainStore} {brain : Brain} {now : ℤ} {operation : BrainAction α}
  {env : Environment} {bytes : ByteArray} {value : α}

/-- The copy that an operation works on is the Brain at the time of the call. -/
theorem observed_eq (hregistries : brain.Registries) {baseline : ByteArray}
    (h : brain.encode = .ok baseline) :
    observed brain baseline now = if brain.clock.Accepts now then .ok (brain.tick now)
      else .error (.state (.access .rejected)) := by
  rw [observed, Brain.decode_encode hregistries h]
  change (do
    (Brain.observe now brain).1.mapError StorageError.state
    return (Brain.observe now brain).2) = _
  rw [Brain.observe_eq]
  split <;> rfl

/-- **How staging ends.** -/
inductive Staging (brain : Brain) (now : ℤ) (operation : BrainAction α) :
    Except StorageError (Staged α) → Prop
  /-- The Brain in memory cannot be written. -/
  | unwritable {e : BrainError} (h : brain.encode = .error e) :
      Staging brain now operation (.error (.state e))
  /-- The time is before one that was observed. -/
  | early (h : ¬brain.clock.Accepts now) :
      Staging brain now operation (.error (.state (.access .rejected)))
  /-- The operation returned, and what it left has a document. -/
  | kept {value : α} {b : Brain} {bytes : ByteArray} (h : brain.clock.Accepts now)
      (hrun : operation (brain.tick now) = (.ok value, b)) (hdocument : document b = .ok bytes) :
      Staging brain now operation (.ok ⟨.ok value, b, bytes⟩)
  /-- The operation or its document failed, and only the time is kept. -/
  | rolledBack {e : StorageError} {bytes : ByteArray} (h : brain.clock.Accepts now)
      (hfail : attempt operation (brain.tick now) = .error e)
      (hdocument : document (brain.tick now) = .ok bytes) :
      Staging brain now operation (.ok ⟨.error e, brain.tick now, bytes⟩)
  /-- The operation or its document failed, and with the new time the Brain does not fit
  either. -/
  | stuck {e e' : StorageError} (h : brain.clock.Accepts now)
      (hfail : attempt operation (brain.tick now) = .error e)
      (hdocument : document (brain.tick now) = .error e') :
      Staging brain now operation (.error e')

/-- An attempt that went through: the operation returned, and what it left has a
document. -/
theorem attempt_eq_ok (h : attempt operation b = .ok (value, bytes)) :
    operation b = (.ok value, (operation b).2) ∧ document (operation b).2 = .ok bytes := by
  rw [attempt, Except.bind_eq_ok] at h
  obtain ⟨value', hvalue, h⟩ := h
  obtain ⟨bytes', hbytes, h⟩ := Except.bind_eq_ok.mp h
  obtain ⟨rfl, rfl⟩ := Prod.mk.inj (Except.ok.inj h)
  exact ⟨Prod.ext (Except.mapError_eq_ok.mp hvalue) rfl, hbytes⟩

theorem attempt_of_ok {b b' : Brain} (hrun : operation b = (.ok value, b'))
    (hdocument : document b' = .ok bytes) : attempt operation b = .ok (value, bytes) := by
  rw [attempt, hrun]
  change (do
    let bytes ← document b'
    return (value, bytes)) = _
  rw [hdocument]
  rfl

theorem staging_stage (hregistries : brain.Registries) (now : ℤ) (operation : BrainAction α) :
    Staging brain now operation (stage brain now operation) := by
  rw [stage]
  cases hencode : brain.encode with
  | error e => exact .unwritable hencode
  | ok baseline =>
    change Staging brain now operation (do
      let candidate ← observed brain baseline now
      _)
    rw [observed_eq hregistries hencode]
    by_cases hclock : brain.clock.Accepts now
    · rw [if_pos hclock]
      dsimp only [bind, Except.bind]
      cases hattempt : attempt operation (brain.tick now) with
      | ok result =>
        obtain ⟨hrun, hdocument⟩ := attempt_eq_ok hattempt
        exact .kept hclock hrun hdocument
      | error e =>
        change Staging brain now operation (do
          let bytes ← document (brain.tick now)
          return ⟨.error e, brain.tick now, bytes⟩)
        cases hdocument : document (brain.tick now) with
        | ok bytes => exact .rolledBack hclock hattempt hdocument
        | error e' => exact .stuck hclock hattempt hdocument
    · rw [if_neg hclock]
      exact .early hclock

theorem stage_of_ok (hregistries : brain.Registries) (hencode : brain.encode = .ok encoded)
    (hclock : brain.clock.Accepts now) (hrun : operation (brain.tick now) = (.ok value, b))
    (hdocument : document b = .ok bytes) :
    stage brain now operation = .ok ⟨.ok value, b, bytes⟩ := by
  have hattempt := attempt_of_ok hrun hdocument
  have hstaging := staging_stage hregistries now operation
  generalize stage brain now operation = result at hstaging
  cases hstaging with
  | unwritable hunwritable => cases hunwritable.symm.trans hencode
  | early hearly => exact absurd hclock hearly
  | stuck _ hfail | rolledBack _ hfail => cases hfail.symm.trans hattempt
  | kept _ hrun' hdocument' =>
    obtain ⟨hvalue, rfl⟩ := Prod.mk.inj (hrun'.symm.trans hrun)
    rw [Except.ok.inj hvalue, Except.ok.inj (hdocument'.symm.trans hdocument)]

theorem stage_of_error (hregistries : brain.Registries) (hencode : brain.encode = .ok encoded)
    (hclock : brain.clock.Accepts now) (hfail : attempt operation (brain.tick now) = .error e)
    (hdocument : document (brain.tick now) = .ok bytes) :
    stage brain now operation = .ok ⟨.error e, brain.tick now, bytes⟩ := by
  have hstaging := staging_stage hregistries now operation
  generalize stage brain now operation = result at hstaging
  cases hstaging with
  | unwritable hunwritable => cases hunwritable.symm.trans hencode
  | early hearly => exact absurd hclock hearly
  | stuck _ _ hdocument' => cases hdocument'.symm.trans hdocument
  | kept _ hrun hdocument' => cases hfail.symm.trans (attempt_of_ok hrun hdocument')
  | rolledBack _ hfail' hdocument' =>
    rw [Except.error.inj (hfail'.symm.trans hfail), Except.ok.inj (hdocument'.symm.trans hdocument)]

/-! ### One transaction -/

/-- A store that knows its file: it can be read, and it has the hash. -/
theorem known_iff :
    s.known env = true ↔ ∃ bytes, read env s.file = .ok bytes ∧ Sha256.digest bytes =
        s.diskHash := by
  rw [known]
  cases read env s.file with
  | error e => simp
  | ok bytes => simp only [beq_iff_eq, Except.ok.injEq, exists_eq_left']

theorem read_eq_ok {file : Option ByteArray} (h : read env file = .ok bytes) :
    file = some bytes := by
  unfold read at h
  split at h
  · cases h
  · cases h
  · split at h
    · cases h
    · rw [Except.ok.inj h]

/-- **How a transaction ends**, and what it leaves. -/
inductive Outcome (s : BrainStore) (now : ℤ) (operation : BrainAction α) (env : Environment) :
    Except StorageError α → BrainStore → Prop
  /-- A poisoned store does nothing. -/
  | unavailable (h : s.poisoned = true) :
      Outcome s now operation env (.error .unavailable) (s.disturbed env)
  /-- The file is not the one the store knows, or cannot be read. -/
  | changed (h : s.poisoned = false) (hknown : (s.disturbed env).known env = false) :
      Outcome s now operation env (.error .changed) { s.disturbed env with poisoned := true }
  /-- There is nothing to commit. -/
  | refused {e : StorageError} (h : s.poisoned = false)
      (hknown : (s.disturbed env).known env = true)
      (hstage : stage s.brain now operation = .error e) :
      Outcome s now operation env (.error e) (s.disturbed env)
  /-- The document is the one in the file. -/
  | same {staged : Staged α} (h : s.poisoned = false)
      (hknown : (s.disturbed env).known env = true)
      (hstage : stage s.brain now operation = .ok staged)
      (hhash : Sha256.digest staged.bytes = s.diskHash) :
      Outcome s now operation env staged.result { s.disturbed env with brain := staged.candidate }
  /-- The document was written. -/
  | written {staged : Staged α} (h : s.poisoned = false)
      (hknown : (s.disturbed env).known env = true)
      (hstage : stage s.brain now operation = .ok staged)
      (hhash : Sha256.digest staged.bytes ≠ s.diskHash) (hwrite : env.replacement = .confirmed) :
      Outcome s now operation env staged.result
        { file := some staged.bytes, brain := staged.candidate
          diskHash := Sha256.digest staged.bytes, poisoned := false }
  /-- It is not certain that the document was written. -/
  | unconfirmed {staged : Staged α} {file : Option ByteArray} (h : s.poisoned = false)
      (hknown : (s.disturbed env).known env = true)
      (hstage : stage s.brain now operation = .ok staged)
      (hhash : Sha256.digest staged.bytes ≠ s.diskHash) (hwrite : env.replacement ≠ .confirmed) :
      Outcome s now operation env (.error .write) { s with file, poisoned := true }

/-- **Every transaction ends in one of these ways.** -/
theorem wp_transact (s : BrainStore) (now : ℤ) (operation : BrainAction α) (env : Environment) :
    wp (transact now operation env) (Outcome s now operation env) s := by
  rw [transact, wp_bind, wp_modify, andThen_ok, wp_bind, Action.wp_get,
    andThen_ok, wp_bind, Action.wp_ensure]
  refine ⟨fun hpoisoned => ?_, fun hpoisoned => .unavailable (by simpa [disturbed] using hpoisoned)⟩
  have hfresh : s.poisoned = false := by simpa [disturbed] using hpoisoned
  rw [andThen_ok]
  cases hknown : (s.disturbed env).known env with
  | false => exact .changed hfresh hknown
  | true =>
    simp only [Bool.not_true, Bool.false_eq_true, if_false]
    rw [wp_bind, wp_lift]
    cases hstage : stage (s.disturbed env).brain now operation with
    | error e => exact .refused hfresh hknown hstage
    | ok staged =>
      rw [andThen_ok]
      by_cases hhash : Sha256.digest staged.bytes = (s.disturbed env).diskHash
      · simp only [if_pos hhash]
        have houtcome := Outcome.same hfresh hknown hstage hhash
        simpa [wp_bind, hhash] using houtcome
      · simp only [if_neg hhash]
        cases hwrite : env.replacement with
        | confirmed =>
          have houtcome := Outcome.written hfresh hknown hstage hhash hwrite
          simpa [wp_bind, write, disturbed, hfresh] using houtcome
        | _ =>
          simp only [write, wp_bind, wp_modify, andThen_ok, wp_lift]
          exact .unconfirmed hfresh hknown hstage hhash (by simp [hwrite])

/-- **What a call that returns has done**, whatever the hashes are: the operation returned,
and what it made of the Brain is in memory and can be encoded. -/
theorem returned_of_transact (hregistries : s.brain.Registries) {s' : BrainStore}
    (h : transact now operation env s = (.ok value, s')) :
    s.brain.clock.Accepts now ∧ operation (s.brain.tick now) = (.ok value, s'.brain) ∧
      ∃ encoded, s'.brain.encode = .ok encoded := by
  have hstaging := staging_stage hregistries now operation
  generalize hvalue : (Except.ok value : Except StorageError α) = r at h
  -- Only what was staged returns a value, and only if the operation was kept.
  have hkept : ∀ staged : Staged α, stage s.brain now operation = .ok staged →
      staged.result = .ok value → staged.candidate = s'.brain →
      s.brain.clock.Accepts now ∧ operation (s.brain.tick now) = (.ok value, s'.brain) ∧
        ∃ encoded, s'.brain.encode = .ok encoded := by
    intro staged hstage hresult hbrain
    rw [hstage] at hstaging
    cases hstaging with
    | kept hclock hrun hdocument =>
      obtain rfl := Except.ok.inj hresult
      obtain rfl := hbrain
      exact ⟨hclock, hrun, (document_eq_ok.mp hdocument).1⟩
    | rolledBack => cases hresult
  have houtcome := of_wp (wp_transact s now operation env) h
  cases houtcome with
  | same _ _ hstage => exact hkept _ hstage hvalue.symm rfl
  | written _ _ hstage => exact hkept _ hstage hvalue.symm rfl
  | unavailable | changed | refused | unconfirmed => cases hvalue

/-- **Once poisoned, always poisoned.** -/
theorem transact_of_poisoned (h : s.poisoned = true) :
    transact now operation env s = (.error .unavailable, s.disturbed env) := by
  rcases hrun : transact now operation env s with ⟨r, s'⟩
  have houtcome := of_wp (wp_transact s now operation env) hrun
  cases houtcome with
  | unavailable => rfl
  | changed hfresh | refused hfresh | same hfresh | written hfresh | unconfirmed hfresh =>
    cases h.symm.trans hfresh

/-- A store in use, with a Brain in memory and a file that it knows. -/
structure InUse (s : BrainStore) (b : Brain) : Prop where
  fresh : s.poisoned = false
  brain : s.brain = b
  file : ∃ bytes, s.file = some bytes ∧ bytes.size ≤ maxFileBytes ∧ Sha256.digest bytes = s.diskHash

theorem inUse_holding (h : b.encode = .ok encoded) : (holding b).InUse b := by
  obtain ⟨-, rfl, hsize⟩ := Brain.encode_eq_ok.mp h
  exact ⟨rfl, rfl, _, rfl, b.size_envelope_le hsize, rfl⟩

/-- **A transaction on a store in use returns** if the time is not too early, the operation
returns, and what it leaves can be encoded; and the store stays in use. -/
theorem InUse.transact {b b' : Brain} (h : s.InUse b) (hregistries : b.Registries)
    {encoded encoded' : ByteArray} (hencode : b.encode = .ok encoded) (henv : env.Works)
    (hclock : b.clock.Accepts now) (hreturned : operation (b.tick now) = (.ok value, b'))
    (hencode' : b'.encode = .ok encoded') :
    (transact now operation env s).1 = .ok value ∧ (transact now operation env s).2.InUse b' := by
  obtain ⟨hfresh, rfl, bytes, hfile, hsize, hhash⟩ := h
  have hdisturbed : s.disturbed env = s := by
    rw [disturbed, henv.outside]
    rfl
  have hknown : (s.disturbed env).known env = true := by
    refine known_iff.mpr ⟨bytes, ?_, by rw [hdisturbed, hhash]⟩
    unfold read
    rw [hdisturbed, henv.readable, hfile]
    exact if_neg (Nat.not_lt.mpr hsize)
  have hstage := stage_of_ok hregistries hencode hclock hreturned
    (document_eq_ok.mpr ⟨⟨encoded', hencode'⟩, rfl⟩)
  rcases hrun : BrainStore.transact now operation env s with ⟨r, s'⟩
  have houtcome := of_wp (wp_transact s now operation env) hrun
  cases houtcome with
  | unavailable hpoisoned => cases hpoisoned.symm.trans hfresh
  | changed _ hunknown => cases hunknown.symm.trans hknown
  | refused _ _ hfail => cases hfail.symm.trans hstage
  | same _ _ hstage' =>
    rw [Except.ok.inj (hstage'.symm.trans hstage), hdisturbed]
    exact ⟨rfl, hfresh, rfl, bytes, hfile, hsize, hhash⟩
  | written _ _ hstage' =>
    rw [Except.ok.inj (hstage'.symm.trans hstage)]
    obtain ⟨-, rfl, hsize'⟩ := Brain.encode_eq_ok.mp hencode'
    exact ⟨rfl, rfl, rfl, _, rfl, b'.size_envelope_le hsize', rfl⟩
  | unconfirmed _ _ _ _ hwrite => exact absurd henv.confirmed hwrite

end BrainStore

/-! ### Runs -/

/-- **What a transaction may stage**: a computation on the Brain that keeps its registries
in order, as every method of the Brain does. -/
structure Transaction (α : Type) where
  run : BrainAction α
  registries : ∀ b : Brain, b.Registries → (run b).2.Registries

/-- One method of the Brain. -/
def Transaction.ofOp (op : BrainOp) (now : ℤ) : Transaction BrainReply :=
  ⟨op.run now, fun _ h => h.run op now⟩

/-- One call of `transact`. -/
structure StoreCall where
  value : Type
  now : ℤ
  operation : Transaction value
  env : Environment

/-- Make a call. -/
def StoreCall.run (call : StoreCall) : Action BrainStore StorageError call.value :=
  BrainStore.transact call.now call.operation.run call.env

namespace BrainStore

variable (replacement : Replacement)

/-- The store after a call. -/
def step (s : BrainStore) (call : StoreCall) : BrainStore := (call.run s).2

/-- What the file holds before a call, what it holds when the call finds it, and what the
call would have it hold. -/
def callContents (s : BrainStore) (call : StoreCall) : List ByteArray :=
  s.file.toList ++ (s.disturbed call.env).file.toList ++
    match stage s.brain call.now call.operation.run with
    | .ok staged => [staged.bytes]
    | .error _ => []

/-- The contents of the file over a run. -/
def contents : BrainStore → List StoreCall → List ByteArray
  | _, [] => []
  | s, call :: calls => s.callContents call ++ (s.step call).contents calls

/-- The store is in use, it has a Brain in memory, and its file, whose hash it knows,
holds the same. -/
def Holds (s : BrainStore) (b : Brain) : Prop :=
  s.poisoned = false ∧ s.brain = b ∧ ∃ bytes, s.file = some bytes ∧
    s.diskHash = Sha256.digest bytes ∧ load bytes b.brainId = .ok b

/-- **What a run preserves**: unless the store is poisoned, the file holds the Brain in
memory. -/
structure Durable (s : BrainStore) : Prop where
  registries : s.brain.Registries
  holds : s.poisoned = false → s.Holds s.brain

/-- Contents of the file are told apart by their hashes. -/
def Distinguished (contents : List ByteArray) : Prop :=
  Set.InjOn Sha256.digest {bytes | bytes ∈ contents}

/-- Where a store comes from: a file that was created, or one that was read. A store that
was opened is one that was read, after its first transaction. -/
inductive Ready : BrainStore → Prop
  | created {file : Option ByteArray} {brainId : String} {owner : OwnerProfile}
      {random : JoinRandom} {now : ℤ} {replacement : Replacement} {s : BrainStore}
      {credential : IssuedCredential}
      (h : create file brainId owner random now replacement = .ok (s, credential)) : Ready s
  | loaded {file : Option ByteArray} {brainId : String} {env : Environment} {s : BrainStore}
      (h : loaded file brainId env = .ok s) : Ready s

variable {s s' : BrainStore} {call : StoreCall} {r : Except StorageError call.value}
  {staged : Staged call.value}

theorem Ready.durable (h : s.Ready) : s.Durable := by
  cases h with
  | @created file brainId owner random now replacement _ credential h =>
    rw [create, Except.bind_eq_ok] at h
    obtain ⟨created, hboot, h⟩ := h
    have hregistries : created.1.Registries :=
      (Brain.Reachable.bootstrap (Except.mapError_eq_ok.mp hboot)).registries
    split at h
    · cases h
    · obtain ⟨bytes, hdocument, h⟩ := Except.bind_eq_ok.mp h
      obtain ⟨done, hwrite, h⟩ := Except.bind_eq_ok.mp h
      obtain ⟨rfl, -⟩ := Prod.mk.inj (Except.ok.inj h)
      refine ⟨hregistries, fun _ => ⟨rfl, rfl, bytes, ?_, rfl, load_document hregistries hdocument⟩⟩
      cases replacement with
      | confirmed => rfl
      | _ => cases hwrite
  | loaded h =>
    rw [BrainStore.loaded, Except.bind_eq_ok] at h
    obtain ⟨bytes, hread, h⟩ := h
    obtain ⟨brain, hload, h⟩ := Except.bind_eq_ok.mp h
    obtain rfl := Except.ok.inj h
    obtain ⟨hregistries, rfl⟩ := registries_of_load hload
    exact ⟨hregistries, fun _ => ⟨rfl, rfl, bytes, read_eq_ok hread, rfl, hload⟩⟩

theorem registries_of_stage {brain : Brain} (hregistries : brain.Registries)
    (h : stage brain call.now call.operation.run = .ok staged) :
    staged.candidate.Registries ∧ document staged.candidate = .ok staged.bytes := by
  have hstaging := staging_stage hregistries call.now call.operation.run
  rw [h] at hstaging
  cases hstaging with
  | kept hclock hrun hdocument =>
    have hkeeps := call.operation.registries _ (hregistries.tick call.now)
    rw [hrun] at hkeeps
    exact ⟨hkeeps, hdocument⟩
  | rolledBack hclock hfail hdocument => exact ⟨hregistries.tick call.now, hdocument⟩

/-- **A store that knows its file when a call begins finds it untouched.** -/
theorem Durable.undisturbed (h : s.Durable) (hfresh : s.poisoned = false)
    (hcontents : Distinguished (s.callContents call))
    (hknown : (s.disturbed call.env).known call.env = true) : s.disturbed call.env = s := by
  obtain ⟨-, -, bytes, hfile, hhash, -⟩ := h.holds hfresh
  obtain ⟨found, hread, hfound⟩ := known_iff.mp hknown
  have hdisturbed : (s.disturbed call.env).file = some found := read_eq_ok hread
  have heq : found = bytes := by
    refine hcontents ?_ ?_ (hfound.trans hhash)
    · simp [callContents, hdisturbed]
    · simp [callContents, hfile]
  have houtside : call.env.outside.getD s.file = s.file := hdisturbed.trans (by rw [heq, hfile])
  rw [disturbed, houtside]

/-- **What is committed is in memory and in the file.** -/
theorem Durable.committed (h : s.Durable) (hfresh : s.poisoned = false)
    (hcontents : Distinguished (s.callContents call))
    (hknown : (s.disturbed call.env).known call.env = true)
    (hstage : stage s.brain call.now call.operation.run = .ok staged)
    (hhash : Sha256.digest staged.bytes = s.diskHash) :
    Holds { s.disturbed call.env with brain := staged.candidate } staged.candidate := by
  obtain ⟨hregistries, hdocument⟩ := registries_of_stage h.registries hstage
  obtain ⟨-, -, bytes, hfile, hdisk, -⟩ := h.holds hfresh
  have heq : staged.bytes = bytes := by
    refine hcontents ?_ ?_ (hhash.trans hdisk)
    · simp [callContents, hstage]
    · simp [callContents, hfile]
  rw [h.undisturbed hfresh hcontents hknown]
  subst heq
  exact ⟨hfresh, rfl, staged.bytes, hfile, hdisk, load_document hregistries hdocument⟩

/-- **How a call ends on a store that is in order.** Either nothing is committed – and
then nothing changes, or the store is poisoned – or what was staged is in memory and in
the file. -/
inductive Ends (s : BrainStore) (call : StoreCall) :
    Except StorageError call.value → BrainStore → Prop
  | unavailable (h : s.poisoned = true) : Ends s call (.error .unavailable) (s.disturbed call.env)
  | changed {s' : BrainStore} (h : s.poisoned = false)
      (hknown : (s.disturbed call.env).known call.env = false) (hpoisoned : s'.poisoned = true)
      (hbrain : s'.brain = s.brain) : Ends s call (.error .changed) s'
  | refused {e : StorageError} (h : s.poisoned = false) (hsame : s.disturbed call.env = s)
      (hstage : stage s.brain call.now call.operation.run = .error e) : Ends s call (.error e) s
  | committed {s' : BrainStore} {staged : Staged call.value} (h : s.poisoned = false)
      (hsame : s.disturbed call.env = s)
      (hstage : stage s.brain call.now call.operation.run = .ok staged)
      (hholds : s'.Holds staged.candidate) : Ends s call staged.result s'
  | unconfirmed {s' : BrainStore} {staged : Staged call.value} (h : s.poisoned = false)
      (hsame : s.disturbed call.env = s)
      (hstage : stage s.brain call.now call.operation.run = .ok staged)
      (hwrite : call.env.replacement ≠ .confirmed) (hpoisoned : s'.poisoned = true)
      (hbrain : s'.brain = s.brain) : Ends s call (.error .write) s'

theorem Durable.ends (h : s.Durable) (hcontents : Distinguished (s.callContents call))
    (hrun : call.run s = (r, s')) : Ends s call r s' := by
  have houtcome := of_wp (wp_transact s call.now call.operation.run call.env) hrun
  cases houtcome with
  | unavailable hpoisoned => exact .unavailable hpoisoned
  | changed hfresh hknown => exact .changed hfresh hknown rfl rfl
  | refused hfresh hknown hstage =>
    have hsame := h.undisturbed hfresh hcontents hknown
    rw [hsame]
    exact .refused hfresh hsame hstage
  | same hfresh hknown hstage hhash =>
    exact .committed hfresh (h.undisturbed hfresh hcontents hknown) hstage
      (h.committed hfresh hcontents hknown hstage hhash)
  | written hfresh hknown hstage hhash hwrite =>
    obtain ⟨hregistries, hdocument⟩ := registries_of_stage h.registries hstage
    exact .committed hfresh (h.undisturbed hfresh hcontents hknown) hstage
      ⟨rfl, rfl, _, rfl, rfl, load_document hregistries hdocument⟩
  | unconfirmed hfresh hknown hstage hhash hwrite =>
    exact .unconfirmed hfresh (h.undisturbed hfresh hcontents hknown) hstage hwrite rfl rfl

/-- **A call leaves a store in order.** -/
theorem Durable.step (h : s.Durable) (hcontents : Distinguished (s.callContents call)) :
    (s.step call).Durable := by
  rcases hrun : call.run s with ⟨r, s'⟩
  have hends := h.ends hcontents hrun
  have hstep : s.step call = s' := by rw [BrainStore.step, hrun]
  rw [hstep]
  cases hends with
  | unavailable hpoisoned =>
    exact ⟨h.registries, fun hfresh => absurd (hpoisoned.symm.trans hfresh) (by decide)⟩
  | changed hfresh hknown hpoisoned hbrain =>
    exact ⟨hbrain ▸ h.registries, fun hfresh => absurd (hpoisoned.symm.trans hfresh) (by decide)⟩
  | refused => exact h
  | committed hfresh hsame hstage hholds =>
    have hregistries := (registries_of_stage h.registries hstage).1
    have hbrain := hholds.2.1
    exact ⟨hbrain ▸ hregistries, fun _ => hbrain ▸ hholds⟩
  | unconfirmed hfresh hsame hstage hwrite hpoisoned hbrain =>
    exact ⟨hbrain ▸ h.registries, fun hfresh => absurd (hpoisoned.symm.trans hfresh) (by decide)⟩

/-- The contents of a run are those of its beginning and those of the rest. -/
theorem contents_append (s : BrainStore) (calls calls' : List StoreCall) :
    s.contents (calls ++ calls') =
      s.contents calls ++ (Run.after step s calls).contents calls' := by
  induction calls generalizing s with
  | nil => rfl
  | cons call calls ih =>
    rw [List.cons_append, contents, contents, ih, Run.after_cons, List.append_assoc]

/-- **A run leaves a store in order.** -/
theorem Durable.after (h : s.Durable) {calls : List StoreCall}
    (hcontents : Distinguished (s.contents calls)) :
    (Run.after BrainStore.step s calls).Durable := by
  induction calls generalizing s with
  | nil => exact h
  | cons call calls ih =>
    rw [contents] at hcontents
    exact ih (h.step (hcontents.mono fun _ => List.mem_append_left _))
      (hcontents.mono fun _ => List.mem_append_right _)

/-! ### A poisoned store -/

theorem poisoned_after (h : s.poisoned = true) (calls : List StoreCall) :
    (Run.after step s calls).poisoned = true := by
  refine @Run.invariant BrainStore StoreCall step (fun t => t.poisoned = true)
    (fun t call hpoisoned => ?_) s h calls
  rw [step, StoreCall.run, transact_of_poisoned hpoisoned]
  exact hpoisoned

/-! ### The whole run -/

/-- A call that gets as far as its operation. -/
def Attempts (s : BrainStore) (call : StoreCall) : Prop :=
  s.poisoned = false ∧ (s.disturbed call.env).known call.env = true ∧
    (∃ encoded, s.brain.encode = .ok encoded) ∧ s.brain.clock.Accepts call.now

theorem attempt_eq_error {α : Type} {operation : BrainAction α} (h : attempt operation b = .error e)
    : ∃ error, e = .state error := by
  rw [attempt] at h
  cases hrun : (operation b).1 with
  | error error =>
    rw [hrun] at h
    exact ⟨error, (Except.error.inj h).symm⟩
  | ok value =>
    rw [hrun] at h
    cases hdocument : document (operation b).2 with
    | error e' =>
      rw [hdocument] at h
      obtain ⟨error, -, rfl⟩ := document_eq_error.mp hdocument
      exact ⟨error, (Except.error.inj h).symm⟩
    | ok bytes =>
      rw [hdocument] at h
      cases h

/-- **Rollback**: where the operation or its document fails, the call returns that error
and only the time is kept – if the Brain still fits with it, and if it is certain that it
was written. -/
theorem Durable.rollback (h : s.Durable) (hcontents : Distinguished (s.callContents call))
    (hrun : call.run s = (r, s')) (hattempts : s.Attempts call)
    (hfail : attempt call.operation.run (s.brain.tick call.now) = .error e) :
    (r = .error e ∧ s'.Holds (s.brain.tick call.now)) ∨
      (∃ e', document (s.brain.tick call.now) = .error e' ∧ r = .error e' ∧ s' = s) ∨
      (call.env.replacement ≠ .confirmed ∧ r = .error .write ∧ s'.poisoned = true) := by
  obtain ⟨hfresh, hknown, ⟨encoded, hencode⟩, hclock⟩ := hattempts
  have hstaging := staging_stage h.registries call.now call.operation.run
  have hends := h.ends hcontents hrun
  cases hends with
  | unavailable hpoisoned => exact absurd (hpoisoned.symm.trans hfresh) (by decide)
  | changed hfresh' hunknown => exact absurd (hunknown.symm.trans hknown) (by decide)
  | refused hfresh' hsame hstage =>
    rw [hstage] at hstaging
    cases hstaging with
    | unwritable hencode' => cases hencode'.symm.trans hencode
    | early hearly => exact absurd hclock hearly
    | stuck _ _ hdocument => exact Or.inr (Or.inl ⟨_, hdocument, rfl, rfl⟩)
  | committed hfresh' hsame hstage hholds =>
    rw [hstage] at hstaging
    cases hstaging with
    | kept _ hreturned hdocument => cases hfail.symm.trans (attempt_of_ok hreturned hdocument)
    | rolledBack _ hfail' _ =>
      obtain rfl := Except.error.inj (hfail.symm.trans hfail')
      exact Or.inl ⟨rfl, hholds⟩
  | unconfirmed hfresh' hsame hstage hwrite hpoisoned =>
    exact Or.inr (Or.inr ⟨hwrite, rfl, hpoisoned⟩)

/-- **Commit before acknowledgement**: a call that returns has put what its operation made
of the Brain into the file. -/
theorem Durable.acknowledged (h : s.Durable) (hcontents : Distinguished (s.callContents call))
    {value : call.value} (hrun : call.run s = (.ok value, s')) :
    ∃ b, call.operation.run (s.brain.tick call.now) = (.ok value, b) ∧ s'.Holds b := by
  have hstaging := staging_stage h.registries call.now call.operation.run
  generalize hr : (Except.ok value : Except StorageError call.value) = r at hrun
  have hends := h.ends hcontents hrun
  cases hends with
  | committed hfresh hsame hstage hholds =>
    rw [hstage] at hstaging
    cases hstaging with
    | kept _ hreturned hdocument =>
      obtain rfl := Except.ok.inj hr
      exact ⟨_, hreturned, hholds⟩
    | rolledBack => cases hr
  | _ => cases hr

/-- Unless the store is poisoned by it, a call found its file as it was left, and what it
was to write is certain to be written. -/
theorem Durable.poisoned_of_fault (h : s.Durable) (hcontents : Distinguished (s.callContents call))
    (hrun : call.run s = (r, s'))
    (hfault : (s.disturbed call.env).file ≠ s.file ∨ r = .error .write) : s'.poisoned = true := by
  have hstaging := staging_stage h.registries call.now call.operation.run
  have hends := h.ends hcontents hrun
  cases hends with
  | unavailable hpoisoned => exact hpoisoned
  | changed _ _ hpoisoned => exact hpoisoned
  | unconfirmed _ _ _ _ hpoisoned => exact hpoisoned
  | refused hfresh hsame hstage =>
    have hwrite := hfault.resolve_left fun hne => hne (by rw [hsame])
    rw [hstage, Except.error.inj hwrite] at hstaging
    cases hstaging with
    | stuck _ _ hdocument =>
      obtain ⟨error, -, herror⟩ := document_eq_error.mp hdocument
      cases herror
  | committed hfresh hsame hstage hholds =>
    have hwrite := hfault.resolve_left fun hne => hne (by rw [hsame])
    rw [hstage] at hstaging
    cases hstaging with
    | kept => cases hwrite
    | rolledBack _ hfail _ =>
      obtain ⟨error, rfl⟩ := attempt_eq_error hfail
      cases hwrite

/-- **Transactions are atomic and durable.** After any calls, and for any call after them:
a store that is not poisoned knows its file, and the file holds the Brain in memory; a
call whose operation fails returns its error and keeps only the time, provided that the
Brain fits with it and is certain to be written; a call that returns has committed; and a
call that finds the file changed, or is not certain to have written it, is the last one
that has anything to do with the Brain. -/
theorem durable_after {s₀ : BrainStore} (h₀ : s₀.Ready) (calls : List StoreCall) (call : StoreCall)
    (hcontents : Distinguished (s₀.contents (calls ++ [call]))) :
    let s := Run.after step s₀ calls
    let r := (call.run s).1
    let s' := s.step call
    (s.poisoned = false → s.Holds s.brain) ∧
    (∀ e, s.Attempts call → attempt call.operation.run (s.brain.tick call.now) = .error e →
      (r = .error e ∧ s'.Holds (s.brain.tick call.now)) ∨
      (∃ e', document (s.brain.tick call.now) = .error e' ∧ r = .error e' ∧ s' = s) ∨
      (call.env.replacement ≠ .confirmed ∧ r = .error .write ∧ s'.poisoned = true)) ∧
    (∀ value, r = .ok value →
      ∃ b, call.operation.run (s.brain.tick call.now) = (.ok value, b) ∧ s'.Holds b) ∧
    ((s.disturbed call.env).file ≠ s.file ∨ r = .error .write → s'.poisoned = true) ∧
    (s'.poisoned = true → ∀ later : List StoreCall,
      (Run.after step s' later).current = .error .unavailable ∧
      ∀ next : StoreCall, (next.run (Run.after step s' later)).1 = .error .unavailable) := by
  intro s r s'
  rw [contents_append] at hcontents
  have hdurable : s.Durable :=
    h₀.durable.after (hcontents.mono fun _ => List.mem_append_left _)
  have hcall : Distinguished (s.callContents call) := by
    refine hcontents.mono fun bytes hbytes => List.mem_append_right _ ?_
    exact List.mem_append_left _ hbytes
  have hrun : call.run s = (r, s') := rfl
  refine ⟨hdurable.holds, fun e hattempts hfail => hdurable.rollback hcall hrun hattempts hfail,
    fun value hvalue => hdurable.acknowledged hcall (hrun.trans (by rw [hvalue])),
    hdurable.poisoned_of_fault hcall hrun, fun hpoisoned later => ?_⟩
  have hlater := poisoned_after hpoisoned later
  exact ⟨if_pos hlater, fun next => by rw [StoreCall.run, transact_of_poisoned hlater]⟩

theorem ready_small : (holding Brain.small).Ready :=
  .loaded (@loaded_holding _ _ .quiet Brain.registries_small Brain.encode_small rfl)

/-- The small Brain is asked, at a time, to cancel an invitation that there is not. -/
def strayCall (now : ℤ) (replacement : Replacement) : StoreCall :=
  { value := BrainReply, now, operation := .ofOp (.cancelInvitation "invitation") now
    env := { Environment.quiet with replacement } }

theorem attempt_strayCall :
    attempt (strayCall 5 replacement).operation.run (Brain.small.tick 5) =
        .error (.state (.access .rejected)) ∧
      attempt (strayCall 6 replacement).operation.run (Brain.small.tick 6) =
        .error (.state (.access .rejected)) :=
  ⟨rfl, rfl⟩

theorem attempts_strayCall {now : ℤ} (h : Brain.small.clock.Accepts now)
    (replacement : Replacement) : (holding Brain.small).Attempts (strayCall now replacement) := by
  refine ⟨rfl, ?_, ⟨_, Brain.encode_small⟩, h⟩
  exact known_iff.mpr ⟨_, read_envelope Brain.encode_small rfl, rfl⟩

/-- **A call that fails at a time that was observed already** leaves the store as it is, and would
have the file hold what it holds. -/
theorem step_holding (hregistries : b.Registries) (hencode : b.encode = .ok encoded)
    {call : StoreCall} (hoperates : (holding b).Attempts call) (houtside : call.env.outside = none)
    (htick : b.tick call.now = b) (hfail : attempt call.operation.run b = .error e) :
    (holding b).step call = holding b ∧
      (holding b).callContents call = List.replicate 3 (Document.codec.toBytes b.envelope) := by
  have hdisturbed : (holding b).disturbed call.env = holding b := by
    rw [disturbed, houtside]
    rfl
  have hstage : stage (holding b).brain call.now call.operation.run =
      .ok ⟨.error e, b, Document.codec.toBytes b.envelope⟩ := by
    have hstage := stage_of_error hregistries hencode hoperates.2.2.2
      (by rw [htick]; exact hfail)
      (by rw [htick]; exact document_eq_ok.mpr ⟨⟨_, hencode⟩, rfl⟩)
    rw [htick] at hstage
    exact hstage
  constructor
  · rcases hrun : call.run (holding b) with ⟨r, s'⟩
    rw [step, hrun]
    have houtcome := of_wp (wp_transact _ _ _ _) hrun
    cases houtcome with
    | unavailable hpoisoned => cases hpoisoned
    | changed _ hunknown => cases hunknown.symm.trans hoperates.2.1
    | refused _ _ hrefused => cases hrefused.symm.trans hstage
    | same _ _ hsame =>
      rw [Except.ok.inj (hsame.symm.trans hstage), hdisturbed]
      rfl
    | written _ _ hwritten hhash | unconfirmed _ _ hwritten hhash =>
      rw [Except.ok.inj (hwritten.symm.trans hstage)] at hhash
      exact absurd rfl hhash
  · rw [callContents, hdisturbed, hstage]
    rfl

theorem step_strayCall :
    (holding Brain.small).step (strayCall 5 replacement) = holding Brain.small ∧
      (holding Brain.small).callContents (strayCall 5 replacement) =
        List.replicate 3 (Document.codec.toBytes Brain.small.envelope) :=
  step_holding Brain.registries_small Brain.encode_small (attempts_strayCall (by decide) _) rfl rfl
    (attempt_strayCall replacement).1

theorem distinguished_strayCalls : Distinguished
    ((holding Brain.small).contents ([strayCall 5 .failed] ++ [strayCall 5 .confirmed])) := by
  have hall : ∀ bytes ∈ (holding Brain.small).contents
      ([strayCall 5 .failed] ++ [strayCall 5 .confirmed]),
      bytes = Document.codec.toBytes Brain.small.envelope := by
    intro bytes hbytes
    rw [contents_append, Run.after_cons, Run.after_nil, (step_strayCall _).1, contents, contents,
      contents, contents, (step_strayCall _).2, (step_strayCall _).2, List.append_nil,
      ← List.replicate_add] at hbytes
    exact List.eq_of_mem_replicate hbytes
  intro x hx y hy _
  rw [hall x hx, hall y hy]

/-- The small Brain refuses a call after another, in front of which the file could not have been
written, and is in memory and in the file as it was. -/
theorem holds_small :
    let s := Run.after step (holding Brain.small) [strayCall 5 .failed]
    ((strayCall 5 .confirmed).run s).1 = .error (.state (.access .rejected)) ∧
      (s.step (strayCall 5 .confirmed)).Holds Brain.small := by
  have hdurable := durable_after ready_small [strayCall 5 .failed] (strayCall 5 .confirmed)
    distinguished_strayCalls
  rw [Run.after_cons, Run.after_nil, (step_strayCall _).1] at hdurable ⊢
  rcases hdurable.2.1 _ (attempts_strayCall (by decide) _) (attempt_strayCall _).1 with
    hback | ⟨e, hdocument, -⟩ | ⟨hwrite, -⟩
  · exact hback
  · cases (document_eq_ok.mpr ⟨⟨_, Brain.encode_small⟩, rfl⟩).symm.trans hdocument
  · exact absurd rfl hwrite

/-- **An operation that fails and a write that fails, together**: the call does not return
the error of the operation and leave the time behind in memory and in the file. -/
theorem not_rolledBack_small :
    (holding Brain.small).Attempts (strayCall 6 .failed) ∧
      attempt (strayCall 6 .failed).operation.run (Brain.small.tick 6) =
        .error (.state (.access .rejected)) ∧
      ¬(((strayCall 6 .failed).run (holding Brain.small)).1 = .error (.state (.access .rejected)) ∧
        ((holding Brain.small).step (strayCall 6 .failed)).brain = Brain.small.tick 6 ∧
        ∃ bytes, ((holding Brain.small).step (strayCall 6 .failed)).file = some bytes ∧
          load bytes "brain" = .ok (Brain.small.tick 6)) := by
  refine ⟨attempts_strayCall (by decide) _, (attempt_strayCall _).2, ?_⟩
  rintro ⟨hresult, hbrain, bytes, hfile, hload⟩
  have hticked : Brain.small ≠ Brain.small.tick 6 := by
    intro heq
    exact absurd (congrArg (fun b : Brain => b.clock.highWaterAt) heq) (by decide)
  rcases hrun : (strayCall 6 .failed).run (holding Brain.small) with ⟨r, s'⟩
  rw [step, hrun] at hbrain hfile
  rw [hrun] at hresult
  have houtcome := of_wp (wp_transact _ _ _ _) hrun
  cases houtcome with
  | refused => exact hticked hbrain
  | same =>
    -- Two documents with one hash: the file still holds the Brain of before.
    obtain rfl := Option.some.inj hfile
    have hloaded := load_document Brain.registries_small
      (document_eq_ok.mpr ⟨⟨_, Brain.encode_small⟩, rfl⟩)
    exact hticked (Except.ok.inj (hloaded.symm.trans hload))
  | written _ _ _ _ hwrite => cases hwrite
  | unavailable | changed | unconfirmed => cases hresult

end BrainStore

end Rivloom.Collaboration
