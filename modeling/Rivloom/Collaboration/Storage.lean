import Rivloom.Collaboration.BrainCodec
import Rivloom.Lib.CodecSize

/-!
# The file of a Brain

A Brain is kept in one file (`storage.rs`). The file holds a document: the JSON of the
Brain as a string, so that what a strict reader must see is not lost to a lenient one,
together with its hash. Every change goes through
`Rivloom.Collaboration.BrainStore.transact`, which works on a copy of the Brain, writes the
document of what came out, and lets go of the result only after the file was replaced. An
operation that fails leaves the Brain as it was, except that the time it was asked at has
been observed.

The file system is an input. `Rivloom.Collaboration.Environment` says, for one call, what
somebody else has done to the file since the last one, whether the file can be read, and
how the attempt to replace it ends – which may be a failure after the replacement is
complete. The lock and the directory are left out: no other writer holds the lock while
a call is running, so the file changes behind the back of a store only between its calls.
-/

namespace Rivloom.Collaboration

variable {b : Brain} {bytes : ByteArray} {brainId : String}

/-! ### Documents -/

/-- The greatest size of the file. -/
def maxFileBytes : ℕ := maxBrainBytes * 2 + 1024

/-- What the file holds: the JSON text of the Brain, and its hash. -/
structure Document where
  version : ℕ
  payload : String
  sha256 : Digest

def Document.codec : Codec Document :=
  .struct
    (.cons "version" (.uint 32) <| .cons "payload" .string <| .cons "sha256" digestCodec .nil)
    ⟨fun v => (v.version, v.payload, v.sha256, ()), fun (a, b, c, _) => ⟨a, b, c⟩, fun _ => rfl,
      fun _ => rfl⟩ (by decide)

/-- Why storage fails. -/
inductive StorageError where
  | read | write | invalid | existing | locked | changed | unavailable
  | state (error : BrainError)
  deriving DecidableEq

/-- The document of a Brain. -/
def document (brain : Brain) : Except StorageError ByteArray := do
  let encoded ← brain.encode.mapError .state
  match String.fromUTF8? encoded with
  | none => .error .invalid
  | some payload =>
    let bytes := Document.codec.toBytes
      { version := 1, payload, sha256 := Sha256.digest payload.toByteArray }
    if maxFileBytes < bytes.size then .error .invalid else .ok bytes

/-- The Brain of a document. -/
def load (bytes : ByteArray) (brainId : String) : Except StorageError Brain :=
  match Document.codec.ofBytes bytes with
  | none => .error .invalid
  | some document =>
    if document.version != 1 || maxBrainBytes < document.payload.utf8ByteSize ||
        Sha256.digest document.payload.toByteArray != document.sha256 then
      .error .invalid
    else (Brain.decode document.payload.toByteArray brainId).mapError .state

/-! ### Documents are read back -/

/-- The JSON text of a Brain. -/
def Brain.payload (b : Brain) : String := String.ofList (Brain.codec.enc b).text

/-- The document of a Brain that can be written. -/
def Brain.envelope (b : Brain) : Document :=
  { version := 1, payload := b.payload, sha256 := Sha256.digest b.payload.toByteArray }

theorem Brain.size_payload (b : Brain) : b.payload.utf8ByteSize = (Brain.codec.toBytes b).size :=
  String.size_toByteArray.symm

theorem size_digest_le (d : Digest) : (digestCodec.enc d).size ≤ 130 := by
  have hbyte : ∀ b ∈ d.val, (u8.enc b).size ≤ 3 := fun b _ =>
    @Codec.size_uint_le 8 _ 3 (by decide) (b.toNat_lt.trans (by decide))
  have hlist : (digestCodec.enc d).size ≤ 2 + d.val.length * (1 + 3) := Codec.size_list_le hbyte
  rw [d.2] at hlist
  exact hlist

/-- **A document always fits**: the quoted text of a Brain takes at most twice its bytes,
since JSON has no control characters, and the rest of the document is small. -/
theorem Brain.size_envelope_le (b : Brain) (h : (Brain.codec.toBytes b).size ≤ maxBrainBytes) :
    (Document.codec.toBytes b.envelope).size ≤ maxFileBytes := by
  have hquote : Json.quoteSize b.payload ≤ 2 + 2 * (Brain.codec.toBytes b).size := by
    rw [Brain.payload, Codec.toBytes, Json.size_bytes, ← Json.byteLength_text]
    exact Json.quoteSize_le_two_mul (Json.text_noControl _)
  have hdigest := size_digest_le b.envelope.sha256
  rw [Codec.toBytes, Json.size_bytes]
  refine Codec.size_struct_le (n := 50) _ _ (by decide) _ (by decide +kernel) ?_
  simp only [Codec.Fields.valuesSize, Equiv.coe_fn_mk, Codec.size_string]
  have hversion : ((Codec.uint 32).enc b.envelope.version).size ≤ 1 :=
    Codec.size_uint_le (by decide) (by decide : (1 : ℕ) < 10 ^ 1)
  have hpayload : Json.quoteSize b.envelope.payload = Json.quoteSize b.payload := rfl
  have hmax : maxFileBytes = maxBrainBytes * 2 + 1024 := rfl
  omega

/-- **What can be encoded has a document**, and nothing else has. -/
theorem document_eq (b : Brain) :
    document b = (b.encode.mapError StorageError.state).map
      fun _ => Document.codec.toBytes b.envelope := by
  rw [document]
  cases hencode : b.encode with
  | error e => rfl
  | ok encoded =>
    obtain ⟨-, rfl, hsize⟩ := Brain.encode_eq_ok.mp hencode
    change (match String.fromUTF8? b.payload.toByteArray with
      | none => _
      | some payload => _) = _
    rw [Json.fromUTF8?_toByteArray]
    exact if_neg (Nat.not_lt.mpr (b.size_envelope_le hsize))

theorem document_eq_ok :
    document b = .ok bytes ↔
      (∃ encoded, b.encode = .ok encoded) ∧ bytes = Document.codec.toBytes b.envelope := by
  rw [document_eq]
  cases b.encode with
  | error e => simp [Except.mapError, Except.map]
  | ok encoded => simp [Except.mapError, Except.map, eq_comm]

/-- The only documents that fail are those of Brains that cannot be encoded. -/
theorem document_eq_error {e : StorageError} :
    document b = .error e ↔ ∃ error, b.encode = .error error ∧ e = .state error := by
  rw [document_eq]
  cases b.encode with
  | error e => simp [Except.mapError, Except.map, eq_comm]
  | ok encoded => simp [Except.mapError, Except.map]

/-- **The Brain of a document is the one it was made for.** -/
theorem load_document (hregistries : b.Registries) (h : document b = .ok bytes) :
    load bytes b.brainId = .ok b := by
  obtain ⟨⟨encoded, hencode⟩, rfl⟩ := document_eq_ok.mp h
  have hdecode := Brain.decode_encode hregistries hencode
  obtain ⟨-, rfl, hsize⟩ := Brain.encode_eq_ok.mp hencode
  have hok : Document.codec.ok b.envelope :=
    ⟨(by decide : 1 < 2 ^ 32), trivial, digestCodec_ok _, trivial⟩
  rw [load, Document.codec.ofBytes_toBytes hok]
  have hgood : (b.envelope.version != 1 || maxBrainBytes < b.envelope.payload.utf8ByteSize ||
      Sha256.digest b.envelope.payload.toByteArray != b.envelope.sha256) = false := by
    simp only [Brain.envelope, b.size_payload, bne_self_eq_false, Bool.false_or, Bool.or_false,
      decide_eq_false_iff_not, not_lt]
    exact hsize
  simp only [hgood, Bool.false_eq_true, if_false]
  change (Brain.decode (Brain.codec.toBytes b) b.brainId).mapError _ = _
  rw [hdecode]
  rfl

/-- What is read has its registries in order, and the id that it was read under. -/
theorem registries_of_load (h : load bytes brainId = .ok b) :
    b.Registries ∧ b.brainId = brainId := by
  rw [load] at h
  split at h
  · cases h
  · split at h
    · cases h
    · obtain ⟨-, hread, -, hid⟩ := Brain.decode_eq_ok.mp (Except.mapError_eq_ok.mp h)
      exact ⟨Brain.registries_of_codec_ok (Brain.codec.ok_of_ofBytes hread), hid⟩

theorem valid_of_load (h : load bytes brainId = .ok b) : b.Valid := by
  rw [load] at h
  split at h
  · cases h
  · split at h
    · cases h
    · exact (Brain.decode_eq_ok.mp (Except.mapError_eq_ok.mp h)).2.2.1

/-! ### The file system -/

/-- How the attempt to replace the file ends. -/
inductive Replacement where
  /-- The file is the new one, and that is certain. -/
  | confirmed
  /-- There was no random name for the new file. -/
  | unnamed
  /-- The new file was not written, or was not moved to its place. -/
  | failed
  /-- The new file is in its place, and then there was an error. -/
  | unconfirmed
  deriving DecidableEq

/-- **What the file system does during one call.** -/
structure Environment where
  /-- What somebody else left in the file since the last call, if anybody touched it. -/
  outside : Option (Option ByteArray)
  /-- Why the file cannot be read, if it cannot. -/
  unreadable : Option StorageError
  replacement : Replacement

/-- A file system on which everything goes well. -/
def Environment.quiet : Environment := ⟨none, none, .confirmed⟩

/-- A file system that lets a call do its work: nobody else touches the file, it can be
read, and it is replaced when it is to be. -/
structure Environment.Works (env : Environment) : Prop where
  outside : env.outside = none
  readable : env.unreadable = none
  confirmed : env.replacement = .confirmed

/-- Read the file, where there is one. -/
def read (env : Environment) (file : Option ByteArray) : Except StorageError ByteArray :=
  match env.unreadable, file with
  | some e, _ => .error e
  | none, none => .error .read
  | none, some bytes => if maxFileBytes < bytes.size then .error .invalid else .ok bytes

/-! ### The store -/

/-- **A store of a Brain**, together with the file that it writes. -/
structure BrainStore where
  /-- The bytes of the file, if there is one. -/
  file : Option ByteArray
  brain : Brain
  /-- The hash of the file as it was last written or read. -/
  diskHash : Digest
  poisoned : Bool

/-- What a transaction is about to commit. -/
structure Staged (α : Type) where
  result : Except StorageError α
  candidate : Brain
  bytes : ByteArray

namespace BrainStore

variable {α : Type} {encoded : ByteArray} {env : Environment}

/-- The Brain in memory, unless the store must be reopened. -/
def current (s : BrainStore) : Except StorageError Brain :=
  if s.poisoned then .error .unavailable else .ok s.brain

/-- A copy of the Brain that has observed the time. -/
def observed (brain : Brain) (baseline : ByteArray) (now : ℤ) : Except StorageError Brain := do
  let candidate ← (Brain.decode baseline brain.brainId).mapError .state
  let outcome := Brain.observe now candidate
  outcome.1.mapError .state
  return outcome.2

/-- What an operation makes of a Brain: its result, and the document of what it left. -/
def attempt (operation : BrainAction α) (candidate : Brain) :
    Except StorageError (α × ByteArray) := do
  let value ← (operation candidate).1.mapError StorageError.state
  let bytes ← document (operation candidate).2
  return (value, bytes)

/-- Run an operation on a copy of the Brain and make the document of what comes out: of
the result, or of the Brain as it was where the operation or its document fails. -/
def stage (brain : Brain) (now : ℤ) (operation : BrainAction α) :
    Except StorageError (Staged α) := do
  let baseline ← brain.encode.mapError .state
  let candidate ← observed brain baseline now
  match attempt operation candidate with
  | .ok (value, bytes) =>
    return { result := .ok value, candidate := (operation candidate).2, bytes }
  | .error error =>
    -- Rejected operations and invalid candidates both retain the observed time.
    let candidate ← observed brain baseline now
    let bytes ← document candidate
    return { result := .error error, candidate, bytes }

/-- The store after somebody else has been at the file. -/
def disturbed (s : BrainStore) (env : Environment) : BrainStore :=
  { s with file := env.outside.getD s.file }

/-- The file can be read, and it is the one that the store knows. -/
def known (s : BrainStore) (env : Environment) : Bool :=
  match read env s.file with
  | .ok bytes => Sha256.digest bytes == s.diskHash
  | .error _ => false

/-- Replace the file. -/
def write (bytes : ByteArray) (replacement : Replacement) :
    Action (Option ByteArray) StorageError Unit := fun file =>
  match replacement with
  | .confirmed => (.ok (), some bytes)
  | .unnamed => (.error (.state (.access .entropyUnavailable)), file)
  | .failed => (.error .write, file)
  | .unconfirmed => (.error .write, some bytes)

/-- **One transaction.** -/
def transact (now : ℤ) (operation : BrainAction α) (env : Environment) :
    Action BrainStore StorageError α := do
  Action.modify fun s => s.disturbed env
  let s ← Action.get
  Action.ensure (!s.poisoned) .unavailable
  if !s.known env then
    Action.modify fun s => { s with poisoned := true }
    Action.lift (.error .changed)
  else
    let staged ← Action.lift (stage s.brain now operation)
    let hash := Sha256.digest staged.bytes
    -- A document that is in the file already is not written again.
    let written :=
      if hash = s.diskHash then (.ok (), s.file) else write staged.bytes env.replacement s.file
    match written with
    | (.error _, file) =>
      Action.modify fun s => { s with file, poisoned := true }
      Action.lift (.error .write)
    | (.ok _, file) =>
      Action.modify fun s => { s with file, diskHash := hash, brain := staged.candidate }
      Action.lift staged.result

/-- A new store, for an owner; there must be no file yet. -/
def create (file : Option ByteArray) (brainId : String) (owner : OwnerProfile)
    (random : JoinRandom) (now : ℤ) (replacement : Replacement) :
    Except StorageError (BrainStore × IssuedCredential) := do
  let created ← (Brain.bootstrap brainId owner random now).mapError .state
  if file.isSome then .error .existing
  else
    let bytes ← document created.1
    let written := write bytes replacement file
    written.1
    return ({ file := written.2, brain := created.1, diskHash := Sha256.digest bytes
              poisoned := false }, created.2)

/-- The store of an existing file, before its first transaction. -/
def loaded (file : Option ByteArray) (brainId : String) (env : Environment) :
    Except StorageError BrainStore := do
  let bytes ← read env file
  let brain ← load bytes brainId
  return { file, brain, diskHash := Sha256.digest bytes, poisoned := false }

/-- **Open an existing file**: the nodes that were online when it was written are not any
more. -/
def openExisting (file : Option ByteArray) (brainId : String) (now : ℤ) (first env : Environment) :
    Except StorageError BrainStore := do
  let store ← loaded file brainId first
  let outcome := transact now (Brain.resetPresence .restart now) env store
  outcome.1.map fun _ => outcome.2

/-! ### A file that was written is read -/

/-- The store of a Brain whose document is in the file. -/
def holding (b : Brain) : BrainStore :=
  { file := some (Document.codec.toBytes b.envelope), brain := b
    diskHash := Sha256.digest (Document.codec.toBytes b.envelope), poisoned := false }

theorem read_envelope (h : b.encode = .ok encoded) (henv : env.unreadable = none) :
    read env (holding b).file = .ok (Document.codec.toBytes b.envelope) := by
  obtain ⟨-, rfl, hsize⟩ := Brain.encode_eq_ok.mp h
  unfold read
  simp only [henv, holding]
  exact if_neg (Nat.not_lt.mpr (b.size_envelope_le hsize))

/-- **The store of a Brain is read from the file that was written for it.** -/
theorem loaded_holding (hregistries : b.Registries) (h : b.encode = .ok encoded)
    (henv : env.unreadable = none) : loaded (holding b).file b.brainId env = .ok (holding b) := by
  have hload := load_document hregistries (document_eq_ok.mpr ⟨⟨encoded, h⟩, rfl⟩)
  rw [loaded, read_envelope h henv]
  change (do
    let brain ← load (Document.codec.toBytes b.envelope) b.brainId
    return _) = _
  rw [hload]
  rfl

end BrainStore

end Rivloom.Collaboration
